import Cxdb.IterationOrder
import Cxdb.ProviderJson

/-!
# The Anthropic Provider

`provider/anthropic.rs`: the history in a request, the assistant's turn in a response, and the
accumulator that makes one of the frames of a stream.
-/

open IterationOrder

namespace Cxdb

namespace Anthropic

structure PartialToolUse where
  id : String
  name : String
  inputJson : String
  deriving DecidableEq

inductive PartialBlock where
  | text (value : String)
  | toolUse (tool : PartialToolUse)
  deriving DecidableEq

structure AnthropicExchange where
  exchangeId : String
  model : Option String
  blocks : HashMap UInt64 PartialBlock
  finishReason : Option String
  parseErrors : List String

def AnthropicExchange.new (exchangeId : String) (model : Option String) : AnthropicExchange where
  exchangeId := exchangeId
  model := model
  blocks := ∅
  finishReason := none
  parseErrors := []

variable (serde : SerdeJson)

/-! ### Requests -/

/-- `content_to_text`. -/
abbrev contentToText := Cxdb.contentToText serde

/-- Whether the text has another one in it. -/
def contains (s part : String) : Bool := (s.toList.tails.any fun t => part.toList.isPrefixOf t)

def isBootstrapUserBlock (block : JsonValue) : Bool :=
  if ¬ block.typeIs "text" then false
  else
    let text := trimStart (block.strField "text")
    "<system-reminder>".toList.isPrefixOf text.toList &&
      (contains text "SessionStart hook additional context" ||
        contains text "The following skills are available for use with the Skill tool:" ||
        contains text
          "As you answer the user's questions, you can use the following context:")

/-- A user's input without files. -/
def userInput (text : String) : HistoryItem := .userInput text []

/-- The text that has been gathered, as an input. -/
def flush (textBuffer : String) : List HistoryItem :=
  if textBuffer = "" then [] else [userInput textBuffer]

def toolResult (block : JsonValue) : HistoryItem :=
  .toolResult (((block.get "tool_use_id" <|> block.get "id").bind JsonValue.asStr).getD "")
    (((block.get "content").map (contentToText serde)).getD "")
    (((block.get "is_error").bind JsonValue.asBool).getD false)

/-- The loop of `parse_user_blocks`, with the text that has been gathered. -/
def userBlocks (textBuffer : String) : List JsonValue → List HistoryItem
  | [] => flush textBuffer
  | block :: blocks =>
      if block.typeIs "text" then
        let text := block.strField "text"
        userBlocks (if textBuffer = "" then text else textBuffer ++ "\n" ++ text) blocks
      else if block.typeIs "tool_result" then
        flush textBuffer ++ toolResult serde block :: userBlocks "" blocks
      else userBlocks textBuffer blocks

def parseUserBlocks : JsonValue → List HistoryItem
  | .string value => [userInput value]
  | .array blocks => userBlocks serde "" (blocks.dropWhile isBootstrapUserBlock)
  | _ => []

/-! ### The assistant's content -/

/-- The texts of the blocks, one after another. -/
def contentText : List JsonValue → String
  | [] => ""
  | block :: blocks =>
      if block.typeIs "text" then block.strField "text" ++ contentText blocks
      else contentText blocks

/-- The input of a tool, as a text. -/
def inputText (block : JsonValue) : String :=
  ((block.get "input").map (jsonishToString serde)).getD ""

def toolCallRecord (block : JsonValue) : ToolCallRecord where
  callId := block.strField "id"
  name := block.strField "name"
  args := inputText serde block

/-- The tool calls of the blocks. -/
def contentToolCalls (blocks : List JsonValue) : List ToolCallRecord :=
  (blocks.filter (JsonValue.typeIs · "tool_use")).map (toolCallRecord serde)

def parseAssistantContent (content : JsonValue) (model finishReason : Option String) :
    Except String (Option HistoryItem) :=
  match content with
  | .null => .ok none
  | .string value => .ok (some (.assistantTurn value [] model finishReason))
  | .array blocks =>
      .ok (some (.assistantTurn (contentText blocks) (contentToolCalls serde blocks) model
        finishReason))
  | _ => .error "unsupported Anthropic content shape"

/-- The items of a message. -/
def parseMessage (model : Option String) (message : JsonValue) :
    Except String (List HistoryItem) :=
  match (message.get "role").bind JsonValue.asStr with
  | none => .error "Anthropic request message missing role"
  | some role =>
      let content := message.fieldOrNull "content"
      if role = "user" then .ok (parseUserBlocks serde content)
      else if role = "assistant" then
        match parseAssistantContent serde content model none with
        | .error e => .error e
        | .ok item => .ok item.toList
      else .ok []

def parseRequestHistory (payload : JsonValue) : Except String (List HistoryItem) :=
  match payload.arrayField "messages" with
  | none => .error "Anthropic request is missing messages array"
  | some messages =>
      parseEach (parseMessage serde ((payload.get "model").bind JsonValue.asStr)) messages

/-- `prepare_exchange`. -/
def prepareExchange (session : SessionRuntime) (exchangeId : String)
    (body : Except String JsonValue) (artifacts : ArtifactRefs) :
    (List TurnEnvelope × AnthropicExchange) × SessionRuntime :=
  match body with
  | .error err =>
      let (turn, session) := session.providerErrorTurn exchangeId "request_parse_error"
        ("failed to parse Anthropic request body: " ++ err) none artifacts
      (([turn], .new exchangeId none), session)
  | .ok payload =>
      let model := (payload.get "model").bind JsonValue.asStr
      match parseRequestHistory serde payload with
      | .ok history =>
          let (turns, session) := session.observeRequestHistory exchangeId history artifacts
          ((turns, .new exchangeId model), session)
      | .error err =>
          let (turn, session) := session.providerErrorTurn exchangeId
            "request_history_parse_error" err none artifacts
          (([turn], .new exchangeId model), session)

/-! ### Streams -/

/-- The first value of a block. -/
def startBlock (block : JsonValue) : Option PartialBlock :=
  if block.typeIs "text" then some (.text (block.strField "text"))
  else if block.typeIs "tool_use" then
    some (.toolUse
      { id := block.strField "id", name := block.strField "name",
        inputJson := inputText serde block })
  else none

/-- A block that has got another piece of text. -/
def pushText (text : String) : PartialBlock → PartialBlock
  | .text value => .text (value ++ text)
  | .toolUse tool => .toolUse tool

/-- A block that has got another piece of its input. -/
def pushInput (part : String) : PartialBlock → PartialBlock
  | .text value => .text value
  | .toolUse tool => .toolUse { tool with inputJson := tool.inputJson ++ part }

/-- What a frame does to the block that it names. -/
inductive BlockEvent where
  | start (block : JsonValue)
  | delta (delta : JsonValue)

/-- The block after an event, when there is one. -/
def BlockEvent.apply (old : Option PartialBlock) : BlockEvent → Option PartialBlock
  | .start block => startBlock serde block <|> old
  | .delta d =>
      if d.typeIs "text_delta" then
        some (pushText (d.strField "text") (old.getD (.text "")))
      else if d.typeIs "input_json_delta" then
        some (pushInput (d.strField "partial_json")
          (old.getD (.toolUse { id := "", name := "", inputJson := "" })))
      else old

/-- The index of a block, and what happens to it. -/
def blockEvent (event : Option String) (payload : JsonValue) : Option (UInt64 × BlockEvent) :=
  let index := ((payload.get "index").bind JsonValue.asU64).getD 0
  match event with
  | some "content_block_start" => some (index, .start (payload.fieldOrNull "content_block"))
  | some "content_block_delta" => (payload.get "delta").map fun delta => (index, .delta delta)
  | _ => none

namespace AnthropicExchange

variable (exchange : AnthropicExchange)

/-- The exchange after something has happened to a block. -/
def setBlock (index : UInt64) (event : BlockEvent) : AnthropicExchange :=
  match event.apply serde (exchange.blocks.lookup index) with
  | some block => { exchange with blocks := exchange.blocks.insert index block }
  | none => exchange

/-- The model, if none is known. -/
def startMessage (payload : JsonValue) : AnthropicExchange :=
  if exchange.model.isNone then
    { exchange with
      model := (((payload.get "message").bind (·.get "model")).bind JsonValue.asStr) }
  else exchange

/-- The reason for the end, if none is known. -/
def changeMessage (payload : JsonValue) : AnthropicExchange :=
  if exchange.finishReason.isNone then
    { exchange with
      finishReason := (((payload.get "delta").bind (·.get "stop_reason")).bind JsonValue.asStr) }
  else exchange

def failed (err : String) : AnthropicExchange :=
  { exchange with parseErrors := exchange.parseErrors ++ [err] }

/-- `absorb_sse_frame`. -/
def absorbSseFrame (frame : SseFrame) : AnthropicExchange :=
  match serde.fromStr frame.data with
  | .error err => exchange.failed ("failed to parse Anthropic stream frame: " ++ err)
  | .ok payload =>
      match frame.event with
      | some "message_start" => exchange.startMessage payload
      | some "message_delta" => exchange.changeMessage payload
      | event =>
          match blockEvent event payload with
          | some (index, blockEvent) => exchange.setBlock serde index blockEvent
          | none => exchange

end AnthropicExchange

/-- The texts of the blocks, one after another. -/
def blockTexts : List PartialBlock → String
  | [] => ""
  | .text value :: blocks => value ++ blockTexts blocks
  | .toolUse _ :: blocks => blockTexts blocks

/-- The tool calls of the blocks. -/
def blockToolCalls : List PartialBlock → List ToolCallRecord
  | [] => []
  | .text _ :: blocks => blockToolCalls blocks
  | .toolUse tool :: blocks =>
      { callId := tool.id, name := tool.name, args := tool.inputJson } :: blockToolCalls blocks

/-- The blocks in the order of their indexes. -/
def AnthropicExchange.sortedBlocks (exchange : AnthropicExchange) : List PartialBlock :=
  (entriesIn exchange.blocks (sorted (· ≤ ·) exchange.blocks.keys)).map Prod.snd

/-! ### Responses -/

/-- A turn for an error. -/
def errorTurn (session : SessionRuntime) (exchange : AnthropicExchange) (title message : String)
    (requestId : Option String) (artifacts : ArtifactRefs) :
    List TurnEnvelope × SessionRuntime :=
  let (turn, session) := session.providerErrorTurn exchange.exchangeId title message requestId
    artifacts
  ([turn], session)

/-- A turn for an item of the history. -/
def itemTurn (session : SessionRuntime) (exchange : AnthropicExchange) (item : HistoryItem) :
    List TurnEnvelope × SessionRuntime :=
  let (turn, session) := session.appendHistoryItem exchange.exchangeId item
  ([turn], session)

/-- `finalize_json`. -/
def finalizeJson (session : SessionRuntime) (exchange : AnthropicExchange) (status : ℕ)
    (requestId : Option String) (body : ResponseBody) (artifacts : ArtifactRefs) :
    List TurnEnvelope × SessionRuntime :=
  if 400 ≤ status then
    errorTurn session exchange "provider_error_response"
      ("Anthropic upstream returned HTTP " ++ Decimal.print status ++ ": " ++ trim body.lossy)
      requestId artifacts
  else
    match body.json with
    | .error err =>
        errorTurn session exchange "response_parse_error"
          ("failed to parse Anthropic response body: " ++ err) requestId artifacts
    | .ok payload =>
        match parseAssistantContent serde (payload.fieldOrNull "content")
            ((payload.get "model").bind JsonValue.asStr <|> exchange.model)
            ((payload.get "stop_reason").bind JsonValue.asStr) with
        | .ok (some item) => itemTurn session exchange item
        | .ok none => ([], session)
        | .error err =>
            errorTurn session exchange "response_extract_error" err requestId artifacts

/-- `finalize_stream`. -/
def finalizeStream (session : SessionRuntime) (exchange : AnthropicExchange) (status : ℕ)
    (requestId : Option String) (artifacts : ArtifactRefs) (malformedRemainder : Option String) :
    List TurnEnvelope × SessionRuntime :=
  match malformedRemainder.filter (trim · ≠ "") with
  | some remainder =>
      errorTurn session exchange "malformed_sse_remainder"
        ("Anthropic stream ended with leftover buffer: " ++ remainder) requestId artifacts
  | none =>
      if exchange.parseErrors ≠ [] then
        errorTurn session exchange "stream_parse_error" ("; ".intercalate exchange.parseErrors)
          requestId artifacts
      else if 400 ≤ status then
        errorTurn session exchange "provider_error_stream"
          ("Anthropic upstream returned HTTP " ++ Decimal.print status ++ " during stream")
          requestId artifacts
      else
        let blocks := exchange.sortedBlocks
        if blocks = [] then ([], session)
        else
          itemTurn session exchange (.assistantTurn (blockTexts blocks) (blockToolCalls blocks)
            exchange.model exchange.finishReason)

/-! ### What is captured -/

variable {serde}

theorem finalizeJson_eq (session : SessionRuntime) (exchange : AnthropicExchange) {status : ℕ}
    (requestId : Option String) {body : ResponseBody} {payload : JsonValue}
    {items : List JsonValue} (artifacts : ArtifactRefs) (hstatus : status < 400)
    (hbody : body.json = .ok payload) (hitems : payload.get "content" = some (.array items)) :
    finalizeJson serde session exchange status requestId body artifacts =
      session.capture exchange.exchangeId
        (some (.assistantTurn (contentText items) (contentToolCalls serde items)
          ((payload.get "model").bind JsonValue.asStr <|> exchange.model)
          ((payload.get "stop_reason").bind JsonValue.asStr))) := by
  rw [finalizeJson, if_neg (not_le.mpr hstatus), hbody]
  simp only [JsonValue.fieldOrNull, hitems, Option.getD_some, parseAssistantContent]
  rfl

/-- The item that has been gathered, if any. -/
def AnthropicExchange.item (exchange : AnthropicExchange) : Option HistoryItem :=
  if exchange.sortedBlocks = [] then none
  else
    some (.assistantTurn (blockTexts exchange.sortedBlocks) (blockToolCalls exchange.sortedBlocks)
      exchange.model exchange.finishReason)

theorem finalizeStream_eq (session : SessionRuntime) {exchange : AnthropicExchange} {status : ℕ}
    (requestId : Option String) (artifacts : ArtifactRefs) (hstatus : status < 400)
    (herrors : exchange.parseErrors = []) :
    finalizeStream session exchange status requestId artifacts none =
      session.capture exchange.exchangeId exchange.item := by
  rw [finalizeStream, AnthropicExchange.item]
  simp only [Option.filter_none, herrors, ne_eq, not_true_eq_false, if_false,
    if_neg (not_le.mpr hstatus)]
  split <;> rfl

end Anthropic

end Cxdb
