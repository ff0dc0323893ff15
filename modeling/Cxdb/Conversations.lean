import Cxdb.RequestHistories

/-!
# Conversations

A client asks, the assistant answers, and the client asks again: with the values of its last
request, with the answer, and with new values. What the session makes of it are the turns of the
requests and of the answers. As long as every answer is read back as it has been captured, there
is a turn for every item of the conversation, in its order, and no request looks like a rewrite.

## Main results

* `hear_captures`: an answer that arrives makes a turn of its items, or none.
* `Talking.round`: one round of a conversation.
* `conversation_turns`: the turns of a conversation.
* `function_call_rewrites`: a function call in Responses.
-/

open TextPieces

namespace Cxdb

/-- A request with its body. -/
structure Request where
  exchangeId : String
  payload : JsonValue
  artifacts : ArtifactRefs := {}

inductive ReplyBody where
  | complete (body : ResponseBody)
  | streamed (frames : List SseFrame)

structure Reply where
  status : ℕ
  body : ReplyBody
  requestId : Option String := none
  artifacts : ArtifactRefs := {}

variable (serde : SerdeJson)

/-- What the proxy does with a request. -/
def ask (format : Format) (session : SessionRuntime) (request : Request) :
    (List TurnEnvelope × ExchangeState) × SessionRuntime :=
  format.protocol.prepareExchange serde session request.exchangeId (.ok request.payload)
    request.artifacts

/-- What the proxy does with the reply to it. -/
def hear (state : ExchangeState) (session : SessionRuntime) (reply : Reply) :
    List TurnEnvelope × SessionRuntime :=
  match reply.body with
  | .complete body =>
      state.finalizeJson serde session reply.status reply.requestId body reply.artifacts
  | .streamed frames =>
      (state.absorbAll serde frames).finalizeStream session reply.status reply.requestId
        reply.artifacts none

/-- A reply, the request after it, and what they say: the answer, how the request shows it, and
the values and the items that are new. -/
structure Round where
  reply : Reply
  request : Request
  answer : Answer
  echo : List JsonValue
  added : List JsonValue
  items : List HistoryItem

/-- The turns of the rounds. -/
def talk (format : Format) (state : ExchangeState) (session : SessionRuntime) :
    List Round → List TurnEnvelope
  | [] => []
  | round :: rounds =>
      let (captured, session) := hear serde state session round.reply
      let ((turns, state), session) := ask serde format session round.request
      captured ++ turns ++ talk format state session rounds

/-- The turns of a conversation. -/
def converse (format : Format) (session : SessionRuntime) (first : Request)
    (rounds : List Round) : List TurnEnvelope :=
  let ((turns, state), session) := ask serde format session first
  turns ++ talk serde format state session rounds

/-! ### Rounds -/

/-- The answer arrives in the body. -/
def Answer.ArrivesAs : Answer → ReplyBody → Prop
  | .openAi message, .complete body => ∃ payload, body.json = .ok payload ∧ message.Shows payload
  | .openAi message, .streamed frames => message.Streams serde frames
  | .anthropic blocks, .complete body => ∃ payload items, body.json = .ok payload ∧
      payload.get "content" = some (.array items) ∧
      List.Forall₂ Anthropic.Block.Shows blocks items
  | .anthropic blocks, .streamed frames => Anthropic.Streams serde blocks frames

/-- The round is what it says. -/
structure Round.Proper (format : Format) (round : Round) : Prop where
  answers : round.answer.format = format
  status : round.reply.status < 400
  reply : round.answer.ArrivesAs serde round.reply.body
  echo : round.answer.Echoes round.echo
  added : Adds serde format round.added round.items

/-- Every request has the values of the last one, the answer to it, and the new values. -/
def Ordered (format : Format) : List JsonValue → List Round → Prop
  | _, [] => True
  | values, round :: rounds =>
      format.values round.request.payload = some (values ++ (round.echo ++ round.added)) ∧
        Ordered format (values ++ (round.echo ++ round.added)) rounds

/-- A stream of Responses has at most one text, and one of Anthropic brings no input. -/
def Answer.StreamKept : Answer → ReplyBody → Prop
  | .openAi (.responses items), .streamed _ =>
      ((OpenAi.texts items).filter (· ≠ "")).length ≤ 1
  | .anthropic _, .streamed frames => ∀ frame ∈ frames, ¬ Anthropic.BringsInput serde frame
  | _, _ => True

/-- The answer is captured as it is read back, and the new values are all read. -/
structure Round.Captured (round : Round) : Prop where
  answer : round.answer.IsOneMessage
  stream : round.answer.StreamKept serde round.reply.body
  added : round.answer.format = .responses → ∀ v ∈ round.added, ¬ CallOrResult v
  begun : round.echo = [] → ∀ v ∈ round.added, ¬ OpenAi.isBootstrapInputItem serde v

variable {serde}

/-! ### Answers that arrive -/

theorem normalize_of_said {item : HistoryItem} {text : String} {calls : List ToolCallRecord}
    (h : item.said = some (text, calls)) :
    normalizeHistoryItem item = .assistantTurn text calls none none := by
  cases item with
  | assistantTurn text' calls' model finishReason =>
      obtain ⟨rfl, rfl⟩ := Prod.mk.inj (Option.some.inj h)
      rfl
  | userInput | toolResult => cases h

/-- The exchange of a request. -/
def Format.newState (format : Format) (exchangeId : String) (model : Option String) :
    ExchangeState :=
  match format with
  | .chat | .responses => .openAi (.new exchangeId model)
  | .anthropic => .anthropic (.new exchangeId model)

variable (serde) in
/-- What is captured of an answer: its items, or nothing. -/
def Answer.CapturedAs (answer : Answer) (captured : Option HistoryItem) : Prop :=
  captured = none ∨ (captured.map normalizeHistoryItem).toList = answer.items serde

theorem Answer.CapturedAs.of_said {answer : Answer} {captured : Option HistoryItem}
    {text : String} {calls : List ToolCallRecord}
    (hitems : answer.items serde = [.assistantTurn text calls none none])
    (h : captured = none ∨ captured.map HistoryItem.said = some (some (text, calls))) :
    answer.CapturedAs serde captured := by
  refine h.imp id fun hsaid => ?_
  obtain ⟨item, rfl, hitem⟩ := Option.map_eq_some_iff.mp hsaid
  rw [Option.map_some, normalize_of_said hitem, hitems, Option.toList_some]

theorem of_captured {captured : Option HistoryItem} {text : String}
    {calls : List ToolCallRecord}
    (h : (captured.map HistoryItem.said).toList = OpenAi.captured text calls) :
    captured = none ∨ captured.map HistoryItem.said = some (some (text, calls)) := by
  rw [OpenAi.captured] at h
  split at h
  · exact Or.inl (by simpa using h)
  · exact Or.inr (by simpa using h)

/-- A response with one message is captured as its item, and one without a message is not. -/
theorem capturedAs_responses {items : List OpenAi.OutputItem} {captured : Option HistoryItem}
    (hone : (Answer.openAi (.responses items)).IsOneMessage)
    (h : (captured.map HistoryItem.said).toList =
      OpenAi.captured (joinLines ((OpenAi.texts items).filter (· ≠ ""))) (OpenAi.calls items)) :
    (Answer.openAi (.responses items)).CapturedAs serde captured := by
  have hitems := flatMap_outputItems hone.2
  rw [hone.2] at h
  match hparts : items.filterMap OpenAi.OutputItem.messageParts, hone.1 with
  | [], _ =>
      rw [OpenAi.texts, hparts] at h
      exact Or.inl (by simpa [OpenAi.captured, joinLines] using h)
  | [parts], _ =>
      rw [hparts] at hitems
      rw [OpenAi.texts, hparts, List.flatten_singleton] at h
      exact .of_said hitems (of_captured h)

/-- A complete answer is captured as its items. -/
theorem capturedAs_payload {message : OpenAi.Message} {payload : JsonValue}
    (h : message.Shows payload) (hone : (Answer.openAi message).IsOneMessage)
    (model : Option String) :
    (Answer.openAi message).CapturedAs serde (OpenAi.parseAssistantPayload serde payload model) := by
  cases message with
  | chat content calls =>
      exact .of_said rfl (Or.inr (by simpa using OpenAi.said_chat h model))
  | responses items => exact capturedAs_responses hone (OpenAi.said_responses h model)

/-- An answer that has been streamed, too. -/
theorem capturedAs_stream {message : OpenAi.Message} {frames : List SseFrame}
    (h : message.Streams serde frames) (hone : (Answer.openAi message).IsOneMessage)
    (hstream : (Answer.openAi message).StreamKept serde (.streamed frames)) (exchangeId : String)
    (model : Option String) :
    (Answer.openAi message).CapturedAs serde
      ((OpenAi.OpenAiExchange.new exchangeId model).absorbAll serde frames).item := by
  cases message with
  | chat content calls =>
      obtain ⟨hcontent, hcalls, -⟩ := OpenAi.ChatStreams.absorbAll h exchangeId model
      refine .of_said rfl (of_captured ?_)
      rw [OpenAi.OpenAiExchange.said_item, hcontent, hcalls]
  | responses items =>
      have hgathered := OpenAi.ResponsesStreams.absorbAll h exchangeId model
      have hnamed : OpenAi.Named (OpenAi.calls items) := by
        rw [hone.2]
        exact ⟨List.nodup_nil, List.not_mem_nil⟩
      refine capturedAs_responses hone ?_
      rw [OpenAi.OpenAiExchange.said_item, hgathered.content, hgathered.records_eq_iff.mpr hnamed,
        (OpenAi.concat_eq_joinLines_iff _).mpr hstream]

theorem capturedAs_blocks {blocks : List Anthropic.Block} {frames : List SseFrame}
    (h : Anthropic.Streams serde blocks frames)
    (hstream : (Answer.anthropic blocks).StreamKept serde (.streamed frames)) (exchangeId : String)
    (model : Option String) :
    (Answer.anthropic blocks).CapturedAs serde
      ((Anthropic.AnthropicExchange.new exchangeId model).absorbAll serde frames).item := by
  have hsaid := h.said_item exchangeId model
  rw [h.calls_eq_iff.mpr hstream] at hsaid
  refine .of_said rfl ?_
  split at hsaid
  · exact Or.inl (by simpa using hsaid)
  · exact Or.inr hsaid

/-- **An answer that arrives** makes a turn of its items, or none. -/
theorem hear_captures {answer : Answer} {reply : Reply} (session : SessionRuntime)
    (exchangeId : String) (model : Option String) (hstatus : reply.status < 400)
    (hreply : answer.ArrivesAs serde reply.body) (hone : answer.IsOneMessage)
    (hstream : answer.StreamKept serde reply.body) :
    ∃ capturedId captured, answer.CapturedAs serde captured ∧
      hear serde (answer.format.newState exchangeId model) session reply =
        session.capture capturedId captured := by
  obtain ⟨status, body, requestId, artifacts⟩ := reply
  match answer, body with
  | .openAi message, .complete body =>
      obtain ⟨payload, hbody, hshows⟩ := hreply
      refine ⟨exchangeId, _, capturedAs_payload hshows hone model, ?_⟩
      cases message <;>
        exact OpenAi.finalizeJson_eq session _ requestId artifacts hstatus hbody
  | .openAi message, .streamed frames =>
      refine ⟨((OpenAi.OpenAiExchange.new exchangeId model).absorbAll serde frames).exchangeId, _,
        capturedAs_stream hreply hone hstream exchangeId model, ?_⟩
      have herrors : ((OpenAi.OpenAiExchange.new exchangeId model).absorbAll serde
          frames).parseErrors = [] := by
        cases message with
        | chat => exact (OpenAi.ChatStreams.absorbAll hreply exchangeId model).2.2
        | responses => exact (OpenAi.ResponsesStreams.absorbAll hreply exchangeId model).parseErrors
      have hstate : (Answer.openAi message).format.newState exchangeId model =
          .openAi (.new exchangeId model) := by
        cases message <;> rfl
      simp only [hear, hstate, ExchangeState.absorbAll_openAi]
      exact OpenAi.finalizeStream_eq session requestId artifacts hstatus herrors
  | .anthropic blocks, .complete body =>
      obtain ⟨payload, items, hbody, hitems, hshows⟩ := hreply
      refine ⟨exchangeId, _, ?_,
        Anthropic.finalizeJson_eq session _ requestId artifacts hstatus hbody hitems⟩
      refine Or.inr ?_
      rw [Anthropic.contentText_of_shows hshows, Anthropic.contentToolCalls_of_shows hshows]
      rfl
  | .anthropic blocks, .streamed frames =>
      refine ⟨((Anthropic.AnthropicExchange.new exchangeId model).absorbAll serde frames).exchangeId,
        _, capturedAs_blocks hreply hstream exchangeId model, ?_⟩
      have herrors : ((Anthropic.AnthropicExchange.new exchangeId model).absorbAll serde
          frames).parseErrors = [] :=
        Anthropic.AnthropicExchange.parseErrors_absorbAll hreply.readable
      simp only [hear, Answer.format, Format.newState, ExchangeState.absorbAll_anthropic]
      exact Anthropic.finalizeStream_eq session requestId artifacts hstatus herrors

/-! ### Runs -/

variable (serde) in
/-- The request with these values has been answered by nothing yet: its items are the session's
history. -/
structure Talking (format : Format) (values : List JsonValue) (items : List HistoryItem)
    (state : ExchangeState) (session : SessionRuntime) : Prop where
  observed : session.state.observedHistory = items
  state : ∃ exchangeId model, state = format.newState exchangeId model
  read : ReadAs serde format values items

/-- What is made of a request whose history can be read. -/
theorem ask_eq {format : Format} {request : Request} {values : List JsonValue}
    {history : List HistoryItem} (hvalues : format.values request.payload = some values)
    (hhistory : format.parseHistory serde request.payload = .ok history)
    (session : SessionRuntime) :
    ∃ model, ask serde format session request =
      (((session.observeRequestHistory request.exchangeId history request.artifacts).1,
          format.newState request.exchangeId model),
        (session.observeRequestHistory request.exchangeId history request.artifacts).2) := by
  refine ⟨(request.payload.get "model").bind JsonValue.asStr, ?_⟩
  cases format with
  | chat | responses =>
      rw [Format.parseHistory] at hhistory
      simp only [ask, Format.protocol, ProtocolKind.prepareExchange, OpenAi.prepareExchange,
        hhistory]
      rfl
  | anthropic =>
      rw [Format.parseHistory] at hhistory
      simp only [ask, Format.protocol, ProtocolKind.prepareExchange, Anthropic.prepareExchange,
        hhistory]
      rfl

/-- **A request whose history begins with the observed one** makes turns for its other items. -/
theorem ask_following {format : Format} {request : Request} {values : List JsonValue}
    {shown rest : List HistoryItem} {session : SessionRuntime}
    (hvalues : format.values request.payload = some values)
    (hread : ReadAs serde format values (shown ++ rest))
    (hshown : session.state.observedHistory = shown) :
    (ask serde format session request).1.1.map TurnEnvelope.about = rest.map .history ∧
      Talking serde format values (shown ++ rest) (ask serde format session request).1.2
        (ask serde format session request).2 := by
  obtain ⟨history, hhistory, hitems⟩ := hread.parseHistory hvalues
  obtain ⟨model, hask⟩ := ask_eq hvalues hhistory session
  obtain ⟨hturns, hobserved⟩ :=
    observe_following request.exchangeId request.artifacts hshown hitems
  rw [hask]
  exact ⟨hturns, hobserved, ⟨_, model, rfl⟩, hread⟩

/-- **One round of a conversation** makes turns of the answer and of the new items. -/
theorem Talking.round {format : Format} {values : List JsonValue} {items : List HistoryItem}
    {state : ExchangeState} {session : SessionRuntime}
    (h : Talking serde format values items state session) {round : Round}
    (hproper : round.Proper serde format) (hcaptured : round.Captured serde)
    (hvalues : format.values round.request.payload =
      some (values ++ (round.echo ++ round.added))) :
    ((hear serde state session round.reply).1 ++ (ask serde format
        (hear serde state session round.reply).2 round.request).1.1).map TurnEnvelope.about =
      (round.answer.items serde ++ round.items).map .history ∧
    Talking serde format (values ++ (round.echo ++ round.added))
      (items ++ (round.answer.items serde ++ round.items))
      (ask serde format (hear serde state session round.reply).2 round.request).1.2
      (ask serde format (hear serde state session round.reply).2 round.request).2 := by
  obtain rfl := hproper.answers
  obtain ⟨exchangeId, model, rfl⟩ := h.state
  obtain ⟨capturedId, captured, hitem, hhear⟩ := hear_captures session exchangeId model
    hproper.status hproper.reply hcaptured.answer hcaptured.stream
  have hread := h.read.extend hproper.echo hcaptured.answer hproper.added hcaptured.added
    hcaptured.begun
  obtain ⟨hturns, hobserved⟩ := about_capture session capturedId captured
  rw [h.observed] at hobserved
  rw [hhear, List.map_append, hturns]
  rcases hitem with rfl | hitem
  · -- Nothing has been captured: the next request makes the turn of the answer.
    rw [Option.map_none, Option.toList_none, List.append_nil] at hobserved
    obtain ⟨hnew, htalking⟩ := ask_following hvalues hread hobserved
    exact ⟨hnew, htalking⟩
  · rw [hitem] at hobserved ⊢
    rw [← List.append_assoc items] at hread ⊢
    obtain ⟨hnew, htalking⟩ := ask_following hvalues hread hobserved
    exact ⟨by rw [hnew, List.map_append], htalking⟩

/-- The items of the rounds: each answer, and what is new after it. -/
def roundItems (serde : SerdeJson) (rounds : List Round) : List HistoryItem :=
  rounds.flatMap fun round => round.answer.items serde ++ round.items

theorem roundItems_cons (round : Round) (rounds : List Round) :
    roundItems serde (round :: rounds) =
      (round.answer.items serde ++ round.items) ++ roundItems serde rounds := List.flatMap_cons

/-- The rounds of a conversation make turns of their items. -/
theorem Talking.talk {format : Format} {values : List JsonValue} {items : List HistoryItem}
    {state : ExchangeState} {session : SessionRuntime} {rounds : List Round}
    (h : Talking serde format values items state session) (hordered : Ordered format values rounds)
    (hproper : ∀ round ∈ rounds, round.Proper serde format)
    (hcaptured : ∀ round ∈ rounds, round.Captured serde) :
    (talk serde format state session rounds).map TurnEnvelope.about =
      (roundItems serde rounds).map .history := by
  induction rounds generalizing values items state session with
  | nil => rfl
  | cons round rounds ih =>
      obtain ⟨hvalues, hordered⟩ := hordered
      obtain ⟨hturns, htalking⟩ := h.round (hproper round List.mem_cons_self)
        (hcaptured round List.mem_cons_self) hvalues
      have hrest := ih htalking hordered (fun r hr => hproper r (List.mem_cons_of_mem _ hr))
        fun r hr => hcaptured r (List.mem_cons_of_mem _ hr)
      rw [Cxdb.talk]
      simp only
      rw [List.map_append, hturns, hrest, roundItems_cons, ← List.map_append]

/-- **The turns of a conversation.** If every answer is captured as it is read back, there is a
turn for every item of the first request, for every answer and for every new item, once and in
their order. No turn is about a rewrite. -/
theorem conversation_turns (format : Format) (session : SessionRuntime) (first : Request)
    (rounds : List Round) {values : List JsonValue} {history : List HistoryItem}
    (hsession : session.state.observedHistory = [])
    (hvalues : format.values first.payload = some values)
    (hhistory : format.parseHistory serde first.payload = .ok history)
    (hordered : Ordered format values rounds)
    (hproper : ∀ round ∈ rounds, round.Proper serde format)
    (hcaptured : ∀ round ∈ rounds, round.Captured serde) :
    (converse serde format session first rounds).map TurnEnvelope.about =
        (history.map normalizeHistoryItem ++ roundItems serde rounds).map .history ∧
      ∀ turn ∈ converse serde format session first rounds, ∀ previous new artifacts,
        turn.item.body ≠ .rewrite previous new artifacts := by
  have hread : ReadAs serde format values ([] ++ history.map normalizeHistoryItem) :=
    readAs_of_parseHistory hvalues hhistory
  obtain ⟨hturns, htalking⟩ := ask_following hvalues hread hsession
  have habout : (converse serde format session first rounds).map TurnEnvelope.about =
      (history.map normalizeHistoryItem ++ roundItems serde rounds).map .history := by
    rw [converse]
    simp only
    rw [List.map_append, hturns, htalking.talk hordered hproper hcaptured, List.map_append]
  refine ⟨habout, fun turn hturn previous new artifacts hrewrite => ?_⟩
  have hmem := List.mem_map_of_mem (f := TurnEnvelope.about) hturn
  rw [habout] at hmem
  obtain ⟨item, -, hitem⟩ := List.mem_map.mp hmem
  rw [TurnEnvelope.about, hrewrite] at hitem
  cases hitem

/-! ### A chat -/

/-- A message with a text. -/
def messageValue (role text : String) : JsonValue :=
  .object [("content", .string text), ("role", .string role), ("type", .string "message")]

def helloRequest : Request where
  exchangeId := "1"
  payload := .object [("messages", .array [messageValue "user" "hi"])]

/-- The assistant says hello, and the client goes on. -/
def helloRound : Round where
  reply :=
    { status := 200
      body := .complete
        { lossy := ""
          json := .ok (.object [("choices", .array
            [.object [("message", messageValue "assistant" "hello")]])]) } }
  request :=
    { exchangeId := "2"
      payload := .object [("messages", .array [messageValue "user" "hi",
        messageValue "assistant" "hello", messageValue "user" "bye"])] }
  answer := .openAi (.chat (some "hello") [])
  echo := [messageValue "assistant" "hello"]
  added := [messageValue "user" "bye"]
  items := [.userInput "bye" []]

theorem helloRound_proper : helloRound.Proper OpenAi.writer .chat where
  answers := rfl
  status := by decide
  reply := ⟨_, rfl, _, rfl, rfl, .nil⟩
  echo := ⟨_, rfl, rfl, rfl, .nil⟩
  added := ⟨[[.userInput "bye" []]], .cons (.chatUser rfl) .nil, rfl⟩

/-- The turns of that chat. -/
theorem conversation_turns_hello :
    (converse OpenAi.writer .chat freshSession helloRequest [helloRound]).map
        TurnEnvelope.about =
      [.history (.userInput "hi" []), .history (.assistantTurn "hello" [] none none),
        .history (.userInput "bye" [])] := by
  have hvalues : Format.chat.values helloRequest.payload = some [messageValue "user" "hi"] := rfl
  have hcaptured : helloRound.Captured OpenAi.writer := ⟨trivial, trivial, nofun, nofun⟩
  exact (conversation_turns .chat freshSession helloRequest [helloRound] rfl hvalues rfl ⟨rfl, trivial⟩
    (by simpa using helloRound_proper) (by simpa using hcaptured)).1

/-! ### A function call -/

def callValue : JsonValue :=
  .object [("arguments", .string "\x7b\x7d"), ("call_id", .string "c"), ("name", .string "ls"),
    ("type", .string "function_call")]

def resultValue : JsonValue :=
  .object [("call_id", .string "c"), ("output", .string "src"),
    ("type", .string "function_call_output")]

/-- A request of Responses. -/
def inputRequest (exchangeId : String) (input : List JsonValue) : Request where
  exchangeId := exchangeId
  payload := .object [("input", .array input)]

/-- The assistant calls a function, and the client has its result. -/
def callRound : Round where
  reply :=
    { status := 200
      body := .complete
        { lossy := ""
          json := .ok (.object [("output", .array [callValue]), ("status", .string "completed")]) } }
  request := inputRequest "2" [messageValue "user" "hi", callValue, resultValue]
  answer := .openAi (.responses [.functionCall ⟨"c", "ls", "\x7b\x7d"⟩])
  echo := [callValue]
  added := [resultValue]
  items := [.toolResult "c" "src" false]

theorem callRound_proper : callRound.Proper OpenAi.writer .responses where
  answers := rfl
  status := by decide
  reply := ⟨_, rfl, rfl, rfl, _, rfl, .cons ⟨by decide, rfl, rfl, rfl⟩ .nil⟩
  echo := by
    refine ⟨.cons ⟨by decide, rfl, rfl, rfl⟩ .nil, fun v hv => ?_⟩
    obtain rfl := List.mem_singleton.mp hv
    exact ⟨rfl, by decide⟩
  added := ⟨[[.toolResult "c" "src" false]],
    .cons (.responsesResult (v := resultValue) (by decide) (by decide)) .nil, rfl⟩

/-- **A function call in Responses** is captured as a turn, but not read back: the next request,
which only goes on, looks like a rewrite, and its new item gets no turn. -/
theorem function_call_rewrites :
    callRound.Proper OpenAi.writer .responses ∧
    Ordered .responses [messageValue "user" "hi"] [callRound] ∧
    (converse OpenAi.writer .responses freshSession
        (inputRequest "1" [messageValue "user" "hi"]) [callRound]).map (·.item.body) =
      [.history (.userInput "hi" []),
        .history (.assistantTurn "" [⟨"c", "ls", "\x7b\x7d"⟩] none (some "completed")),
        .rewrite 2 1 {}] :=
  ⟨callRound_proper, ⟨rfl, trivial⟩, by decide⟩

end Cxdb
