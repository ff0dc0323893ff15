import Cxdb.LastWrite

/-!
# Items of Conversations

The records of the Rust client that a turn's payload is made of (`types/conversation.rs` and
`types/provenance.rs`), and the builders of the items that a captured history consists of. An
item is stamped with the time at which it is built.
-/

namespace Cxdb.Rust

/-! ### Records -/

structure UserInput where
  text : String
  files : List String

structure ToolCallResult where
  content : String
  contentTruncated : Bool
  success : Bool
  exitCode : Option Int64

structure ToolCallError where
  code : String
  message : String
  exitCode : Option Int64

structure ToolCallItem where
  id : String
  name : String
  args : String
  status : String
  description : String
  streamingOutput : String
  streamingOutputTruncated : Bool
  result : Option ToolCallResult
  error : Option ToolCallError
  durationMs : Int64

structure TurnMetrics where
  inputTokens : Int64
  outputTokens : Int64
  totalTokens : Int64
  cachedTokens : Option Int64
  reasoningTokens : Option Int64
  durationMs : Option Int64
  model : String

structure AssistantTurn where
  text : String
  toolCalls : List ToolCallItem
  reasoning : String
  metrics : Option TurnMetrics
  agent : String
  turnNumber : Int64
  maxTurns : Int64
  finishReason : String

structure SystemMessage where
  kind : String
  title : String
  content : String

structure HandoffInfo where
  fromAgent : String
  toAgent : String
  toolName : String
  input : String
  reason : String

structure Assistant where
  text : String
  reasoning : String
  model : String
  inputTokens : Int64
  outputTokens : Int64
  stopReason : String

structure ToolCall where
  callId : String
  name : String
  args : String
  description : String

structure ToolResult where
  callId : String
  content : String
  isError : Bool
  exitCode : Option Int64
  streamingOutput : String
  outputTruncated : Bool
  durationMs : Int64

structure Provenance where
  parentContextId : Option UInt64
  spawnReason : String
  rootContextId : Option UInt64
  traceId : String
  spanId : String
  correlationId : String
  onBehalfOf : String
  onBehalfOfSource : String
  onBehalfOfEmail : String
  writerMethod : String
  writerSubject : String
  writerIssuer : String
  serviceName : String
  serviceVersion : String
  serviceInstanceId : String
  processPid : Int64
  processOwner : String
  hostName : String
  hostArch : String
  clientAddress : String
  clientPort : Int64
  envVars : Option (HashMap String String)
  sdkName : String
  sdkVersion : String
  capturedAt : Int64

structure ContextMetadata where
  clientTag : String
  title : String
  labels : List String
  custom : HashMap String String
  provenance : Option Provenance

structure ConversationItem where
  itemType : String
  status : String
  timestamp : Int64
  id : String
  userInput : Option UserInput := none
  turn : Option AssistantTurn := none
  system : Option SystemMessage := none
  handoff : Option HandoffInfo := none
  assistant : Option Assistant := none
  toolCall : Option ToolCall := none
  toolResult : Option ToolResult := none
  contextMetadata : Option ContextMetadata := none

/-! ### Builders -/

/-- `new_user_input`. -/
def newUserInput (now : Int64) (text : String) (files : List String) : ConversationItem where
  itemType := "user_input"
  status := "complete"
  timestamp := now
  id := ""
  userInput := some { text, files }

/-- `new_assistant_turn` and `build_assistant_turn`. -/
def newAssistantTurn (now : Int64) (text : String) : ConversationItem where
  itemType := "assistant_turn"
  status := "complete"
  timestamp := now
  id := ""
  turn := some
    { text, toolCalls := [], reasoning := "", metrics := none, agent := "", turnNumber := 0
      maxTurns := 0, finishReason := "" }

/-- What the methods of `AssistantTurnBuilder` change. -/
def ConversationItem.mapTurn (f : AssistantTurn → AssistantTurn) (item : ConversationItem) :
    ConversationItem :=
  { item with turn := item.turn.map f }

/-- `with_finish_reason`. -/
def ConversationItem.withFinishReason (reason : String) : ConversationItem → ConversationItem :=
  mapTurn fun turn => { turn with finishReason := reason }

/-- `with_full_metrics`. -/
def ConversationItem.withFullMetrics (metrics : TurnMetrics) :
    ConversationItem → ConversationItem :=
  mapTurn fun turn => { turn with metrics := some metrics }

/-- `with_tool_call`. -/
def ConversationItem.withToolCall (toolCall : ToolCallItem) :
    ConversationItem → ConversationItem :=
  mapTurn fun turn => { turn with toolCalls := turn.toolCalls ++ [toolCall] }

/-- `with_id`. -/
def ConversationItem.withId (id : String) (item : ConversationItem) : ConversationItem :=
  { item with id }

/-- `new_tool_call_item`; `with_status` sets the status that it has already. -/
def newToolCallItem (id name args : String) : ToolCallItem where
  id := id
  name := name
  args := args
  status := "pending"
  description := ""
  streamingOutput := ""
  streamingOutputTruncated := false
  result := none
  error := none
  durationMs := 0

/-- `new_tool_result` and `build_tool_result`. -/
def newToolResult (now : Int64) (callId content : String) (isError : Bool) :
    ConversationItem where
  itemType := "tool_result"
  status := "complete"
  timestamp := now
  id := ""
  toolResult := some
    { callId, content, isError, exitCode := none, streamingOutput := "", outputTruncated := false
      durationMs := 0 }

/-- `with_error`. -/
def ConversationItem.withError (item : ConversationItem) : ConversationItem :=
  { item with toolResult := item.toolResult.map fun result => { result with isError := true } }

/-- `new_system_message` and `build_system`. -/
def newSystemMessage (now : Int64) (kind content : String) : ConversationItem where
  itemType := "system"
  status := "complete"
  timestamp := now
  id := ""
  system := some { kind, title := "", content }

/-- `with_title`. -/
def ConversationItem.withTitle (title : String) (item : ConversationItem) : ConversationItem :=
  { item with system := item.system.map fun system => { system with title } }

end Cxdb.Rust
