import Cxdb.ProviderJson

/-!
# The OpenAI Provider

`provider/openai.rs`: the history in a request, the assistant's turn in a response, and the
accumulator that makes one of the frames of a stream. Both are there for Chat Completions and for
Responses, which share the accumulator.
-/

open TextPieces

namespace Cxdb

namespace OpenAi

structure PartialToolCall where
  callId : String := ""
  name : String := ""
  args : String := ""
  deriving DecidableEq

structure OpenAiExchange where
  exchangeId : String
  model : Option String
  content : String
  toolCalls : List PartialToolCall
  finishReason : Option String
  parseErrors : List String

def OpenAiExchange.new (exchangeId : String) (model : Option String) : OpenAiExchange where
  exchangeId := exchangeId
  model := model
  content := ""
  toolCalls := []
  finishReason := none
  parseErrors := []

variable (serde : SerdeJson)

/-- A string that a value may be. -/
def strOf (v : Option JsonValue) : Option String := v.bind JsonValue.asStr

theorem typeIs_iff {v : JsonValue} {name : String} :
    v.typeIs name ↔ strOf (v.get "type") = some name := by
  simp [JsonValue.typeIs, strOf]

/-- The text of the field `content`. -/
def contentOf (v : JsonValue) : String := contentToText serde (v.fieldOrNull "content")

/-! ### Tool calls -/

/-- A field of the field `function`. -/
def functionField (toolCall : JsonValue) (key : String) : Option JsonValue :=
  (toolCall.get "function").bind (·.get key)

def toolCallRecord (toolCall : JsonValue) : ToolCallRecord where
  callId := toolCall.strField "id"
  name := (strOf (functionField toolCall "name")).getD ""
  args := ((functionField toolCall "arguments").map (jsonishToString serde)).getD ""

def parseToolCalls (value : Option JsonValue) : List ToolCallRecord :=
  match value.bind JsonValue.asArray with
  | some toolCalls => toolCalls.map (toolCallRecord serde)
  | none => []

/-- The identifier of a function call among the items of a response. -/
def callIdOf (item : JsonValue) : String :=
  (strOf (item.get "call_id" <|> item.get "id")).getD ""

/-- The arguments of a function call among the items of a response. -/
def argumentsOf (item : JsonValue) : String :=
  ((item.get "arguments" <|> item.get "input").map (jsonishToString serde)).getD ""

def parseResponsesToolCalls (items : List JsonValue) : List ToolCallRecord :=
  (items.filter (·.typeIs "function_call")).map fun item =>
    { callId := callIdOf item, name := item.strField "name", args := argumentsOf serde item }

/-! ### Requests -/

/-- A message of a chat. -/
def parseChatMessage (model : Option String) (message : JsonValue) :
    Except String (List HistoryItem) :=
  match strOf (message.get "role") with
  | none => .error "OpenAI request message missing role"
  | some role =>
      if role = "user" then .ok [.userInput (contentOf serde message) []]
      else if role = "assistant" then
        .ok [.assistantTurn (contentOf serde message)
          (parseToolCalls serde (message.get "tool_calls")) model none]
      else if role = "tool" then
        .ok [.toolResult (message.strField "tool_call_id") (contentOf serde message) false]
      else .ok []

def parseMessageHistory (messages : List JsonValue) (model : Option String) :
    Except String (List HistoryItem) :=
  parseEach (parseChatMessage serde model) messages

def isBootstrapInputItem (item : JsonValue) : Bool :=
  if ¬ item.typeIs "message" then false
  else if strOf (item.get "role") ≠ some "user" then false
  else
    let trimmed := trimStart (contentOf serde item)
    ["# AGENTS.md instructions for ", "<permissions instructions>", "<collaboration_mode>",
      "<skills_instructions>", "<environment_context>"].any fun start =>
        start.toList.isPrefixOf trimmed.toList

def isDeveloper (item : JsonValue) : Bool := strOf (item.get "role") = some "developer"

/-- The items after the last one of the developer. -/
def afterDeveloper (input : List JsonValue) : List JsonValue :=
  (input.reverse.takeWhile (¬ isDeveloper ·)).reverse

/-- An item of the input, which may be something else than a message. -/
def parseInputItem (model : Option String) (item : JsonValue) :
    Except String (List HistoryItem) :=
  if (strOf (item.get "type")).any (· ≠ "message") then .ok []
  else
    match strOf (item.get "role") with
    | none => .error "OpenAI input item missing role"
    | some role =>
        if role = "user" then .ok [.userInput (contentOf serde item) []]
        else if role = "assistant" then
          .ok [.assistantTurn (contentOf serde item) [] model none]
        else if role = "tool" then
          .ok [.toolResult ((strOf (item.get "call_id" <|> item.get "tool_call_id")).getD "")
            (contentOf serde item) false]
        else .ok []

def parseInputHistory (input : List JsonValue) (model : Option String) :
    Except String (List HistoryItem) :=
  parseEach (parseInputItem serde model)
    ((afterDeveloper input).dropWhile (isBootstrapInputItem serde))

def parseRequestHistory (payload : JsonValue) : Except String (List HistoryItem) :=
  let model := strOf (payload.get "model")
  match payload.arrayField "messages" with
  | some messages => parseMessageHistory serde messages model
  | none =>
      match payload.arrayField "input" with
      | some input => parseInputHistory serde input model
      | none => .error "OpenAI request is missing messages or input array"

/-- `prepare_exchange`. -/
def prepareExchange (session : SessionRuntime) (exchangeId : String)
    (body : Except String JsonValue) (artifacts : ArtifactRefs) :
    (List TurnEnvelope × OpenAiExchange) × SessionRuntime :=
  match body with
  | .error err =>
      let (turn, session) := session.providerErrorTurn exchangeId "request_parse_error"
        ("failed to parse OpenAI request body: " ++ err) none artifacts
      (([turn], .new exchangeId none), session)
  | .ok payload =>
      let model := strOf (payload.get "model")
      match parseRequestHistory serde payload with
      | .ok history =>
          let (turns, session) := session.observeRequestHistory exchangeId history artifacts
          ((turns, .new exchangeId model), session)
      | .error err =>
          let (turn, session) := session.providerErrorTurn exchangeId
            "request_history_parse_error" err none artifacts
          (([turn], .new exchangeId model), session)

/-! ### Responses -/

/-- The first of the choices. -/
def firstChoice (payload : JsonValue) : Option JsonValue :=
  (payload.arrayField "choices").bind List.head?

/-- The texts of the assistant's messages, line by line. -/
def outputText (output : List JsonValue) : String :=
  joinLines (((output.filter fun item =>
    item.typeIs "message" && (strOf (item.get "role") = some "assistant")).map
      (contentOf serde)).filter (· ≠ ""))

/-- `parse_assistant_payload`, which never returns an error. -/
def parseAssistantPayload (payload : JsonValue) (fallbackModel : Option String) :
    Option HistoryItem :=
  match (firstChoice payload).bind (·.get "message") with
  | some message =>
      some (.assistantTurn (contentOf serde message)
        (parseToolCalls serde (message.get "tool_calls"))
        (strOf (payload.get "model") <|> fallbackModel)
        (strOf ((firstChoice payload).bind (·.get "finish_reason"))))
  | none =>
      let response := (payload.get "response").getD payload
      match response.arrayField "output" <|> payload.arrayField "output" with
      | none => none
      | some output =>
          let text := outputText serde output
          let toolCalls := parseResponsesToolCalls serde output
          if text = "" ∧ toolCalls = [] then none
          else
            some (.assistantTurn text toolCalls (strOf (response.get "model") <|> fallbackModel)
              (strOf (response.get "status")))

/-! ### Streams -/

/-- A tool call that has got another piece. -/
def PartialToolCall.extend (slot : PartialToolCall) (delta : JsonValue) : PartialToolCall where
  callId := (strOf (delta.get "id")).getD slot.callId
  name := (strOf (functionField delta "name")).getD slot.name
  args := slot.args ++ ((functionField delta "arguments").map (jsonishToString serde)).getD ""

/-- `absorb_tool_call_delta`. -/
def absorbToolCallDelta (slots : List PartialToolCall) (delta : JsonValue) :
    List PartialToolCall :=
  let index := (((delta.get "index").bind JsonValue.asU64).map UInt64.toNat).getD slots.length
  let slots := slots ++ List.replicate (index + 1 - slots.length) ({ } : PartialToolCall)
  slots.modify index (·.extend serde delta)

/-- What is missing in a tool call, from an item. -/
def PartialToolCall.complete (slot : PartialToolCall) (item : JsonValue) : PartialToolCall where
  callId := slot.callId
  name := if slot.name = "" then item.strField "name" else slot.name
  args := if slot.args = "" then argumentsOf serde item else slot.args

/-- The tool calls with that of an item: the first with its identifier, or a new one. -/
def absorbFunctionCall (item : JsonValue) : List PartialToolCall → List PartialToolCall
  | [] =>
      [{ callId := callIdOf item, name := item.strField "name", args := argumentsOf serde item }]
  | slot :: slots =>
      if slot.callId = callIdOf item then slot.complete serde item :: slots
      else slot :: absorbFunctionCall item slots

/-- What happens in a stream of Responses. -/
inductive ResponsesEvent where
  /-- The response as it is now. -/
  | response (response : JsonValue)
  | textDelta (delta : String)
  /-- An item that is new or done. -/
  | item (item : JsonValue)

def responsesEvent (eventType : String) (payload : JsonValue) : Option ResponsesEvent :=
  if eventType = "response.created" ∨ eventType = "response.in_progress" ∨
      eventType = "response.completed" then
    (payload.get "response").map .response
  else if eventType = "response.output_text.delta" then
    (strOf (payload.get "delta")).map .textDelta
  else if eventType = "response.output_item.added" ∨ eventType = "response.output_item.done" then
    (payload.get "item").map .item
  else none

namespace OpenAiExchange

variable (exchange : OpenAiExchange)

def failed (err : String) : OpenAiExchange :=
  { exchange with parseErrors := exchange.parseErrors ++ [err] }

/-- `absorb_responses_output_item`. -/
def absorbOutputItem (item : JsonValue) : OpenAiExchange :=
  if item.typeIs "message" then
    if exchange.content = "" then { exchange with content := contentOf serde item } else exchange
  else if item.typeIs "function_call" then
    if callIdOf item = "" then exchange
    else { exchange with toolCalls := absorbFunctionCall serde item exchange.toolCalls }
  else exchange

/-- `absorb_responses_output`. -/
def absorbOutput (response : JsonValue) : OpenAiExchange :=
  match response.arrayField "output" with
  | none => exchange
  | some items => items.foldl (·.absorbOutputItem serde) exchange

/-- The model, if none is known, and the status. -/
def noteResponse (response : JsonValue) : OpenAiExchange :=
  { exchange with
    model := if exchange.model.isNone then strOf (response.get "model") else exchange.model
    finishReason := strOf (response.get "status") <|> exchange.finishReason }

/-- `absorb_responses_event`. -/
def absorbResponsesEvent : ResponsesEvent → OpenAiExchange
  | .response response => (exchange.noteResponse response).absorbOutput serde response
  | .textDelta delta => { exchange with content := exchange.content ++ delta }
  | .item item => exchange.absorbOutputItem serde item

/-- What the first choice of a chunk adds. -/
def absorbDelta (delta : JsonValue) : OpenAiExchange :=
  { exchange with
    content := exchange.content ++ ((delta.get "content").map (contentToText serde)).getD ""
    toolCalls := ((delta.arrayField "tool_calls").getD []).foldl (absorbToolCallDelta serde)
      exchange.toolCalls }

/-- A chunk of a chat. -/
def absorbChunk (payload : JsonValue) : OpenAiExchange :=
  let exchange := { exchange with
    model := if exchange.model.isNone then strOf (payload.get "model") else exchange.model }
  match firstChoice payload with
  | none => exchange
  | some choice =>
      let exchange := match choice.get "delta" with
        | some delta => exchange.absorbDelta serde delta
        | none => exchange
      { exchange with
        finishReason :=
          if exchange.finishReason.isNone then strOf (choice.get "finish_reason")
          else exchange.finishReason }

/-- `absorb_sse_frame`. -/
def absorbSseFrame (frame : SseFrame) : OpenAiExchange :=
  if trim frame.data = "[DONE]" then exchange
  else
    match serde.fromStr frame.data with
    | .error err => exchange.failed ("failed to parse OpenAI stream frame: " ++ err)
    | .ok payload =>
        match strOf (payload.get "type") with
        | some eventType =>
            match responsesEvent eventType payload with
            | some event => exchange.absorbResponsesEvent serde event
            | none => exchange
        | none => exchange.absorbChunk serde payload

end OpenAiExchange

/-! ### Turns -/

/-- A turn for an error. -/
def errorTurn (session : SessionRuntime) (exchange : OpenAiExchange) (title message : String)
    (requestId : Option String) (artifacts : ArtifactRefs) :
    List TurnEnvelope × SessionRuntime :=
  let (turn, session) := session.providerErrorTurn exchange.exchangeId title message requestId
    artifacts
  ([turn], session)

/-- A turn for an item of the history. -/
def itemTurn (session : SessionRuntime) (exchange : OpenAiExchange) (item : HistoryItem) :
    List TurnEnvelope × SessionRuntime :=
  let (turn, session) := session.appendHistoryItem exchange.exchangeId item
  ([turn], session)

/-- `finalize_json`. -/
def finalizeJson (session : SessionRuntime) (exchange : OpenAiExchange) (status : ℕ)
    (requestId : Option String) (body : ResponseBody) (artifacts : ArtifactRefs) :
    List TurnEnvelope × SessionRuntime :=
  if 400 ≤ status then
    errorTurn session exchange "provider_error_response"
      ("OpenAI upstream returned HTTP " ++ Decimal.print status ++ ": " ++ trim body.lossy)
      requestId artifacts
  else
    match body.json with
    | .error err =>
        errorTurn session exchange "response_parse_error"
          ("failed to parse OpenAI response body: " ++ err) requestId artifacts
    | .ok payload =>
        match parseAssistantPayload serde payload exchange.model with
        | some item => itemTurn session exchange item
        | none => ([], session)

def PartialToolCall.record (tool : PartialToolCall) : ToolCallRecord where
  callId := tool.callId
  name := tool.name
  args := tool.args

/-- `finalize_stream`. -/
def finalizeStream (session : SessionRuntime) (exchange : OpenAiExchange) (status : ℕ)
    (requestId : Option String) (artifacts : ArtifactRefs) (malformedRemainder : Option String) :
    List TurnEnvelope × SessionRuntime :=
  match malformedRemainder.filter (trim · ≠ "") with
  | some remainder =>
      errorTurn session exchange "malformed_sse_remainder"
        ("OpenAI stream ended with leftover buffer: " ++ remainder) requestId artifacts
  | none =>
      if exchange.parseErrors ≠ [] then
        errorTurn session exchange "stream_parse_error" ("; ".intercalate exchange.parseErrors)
          requestId artifacts
      else if 400 ≤ status then
        errorTurn session exchange "provider_error_stream"
          ("OpenAI upstream returned HTTP " ++ Decimal.print status ++ " during stream")
          requestId artifacts
      else if exchange.content = "" ∧ exchange.toolCalls = [] then ([], session)
      else
        itemTurn session exchange (.assistantTurn exchange.content
          (exchange.toolCalls.map PartialToolCall.record) exchange.model exchange.finishReason)

/-! ### What is captured -/

variable {serde}

theorem finalizeJson_eq (session : SessionRuntime) (exchange : OpenAiExchange) {status : ℕ}
    (requestId : Option String) {body : ResponseBody} {payload : JsonValue}
    (artifacts : ArtifactRefs) (hstatus : status < 400) (hbody : body.json = .ok payload) :
    finalizeJson serde session exchange status requestId body artifacts =
      session.capture exchange.exchangeId
        (parseAssistantPayload serde payload exchange.model) := by
  rw [finalizeJson, if_neg (not_le.mpr hstatus), hbody]
  simp only
  cases parseAssistantPayload serde payload exchange.model <;> rfl

/-- The item that has been gathered, if any. -/
def OpenAiExchange.item (exchange : OpenAiExchange) : Option HistoryItem :=
  if exchange.content = "" ∧ exchange.toolCalls = [] then none
  else
    some (.assistantTurn exchange.content (exchange.toolCalls.map PartialToolCall.record)
      exchange.model exchange.finishReason)

theorem finalizeStream_eq (session : SessionRuntime) {exchange : OpenAiExchange} {status : ℕ}
    (requestId : Option String) (artifacts : ArtifactRefs) (hstatus : status < 400)
    (herrors : exchange.parseErrors = []) :
    finalizeStream session exchange status requestId artifacts none =
      session.capture exchange.exchangeId exchange.item := by
  rw [finalizeStream, OpenAiExchange.item]
  simp only [Option.filter_none, herrors, ne_eq, not_true_eq_false, if_false,
    if_neg (not_le.mpr hstatus)]
  split <;> rfl

end OpenAi

end Cxdb
