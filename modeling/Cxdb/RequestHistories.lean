import Cxdb.Exchanges

/-!
# Histories in Requests

A request has its history as a list of values, in one of three formats. The values are read one
by one, so that a request with more values has a longer history; the format of Responses looks
for the beginning of the conversation first.

## Main results

* `parseHistory_eq`: what is read of a request.
* `ReadAs.append`: more values are more items.
* `Answer.Echoes.readAs`: how an assistant's answer is read back.
* `ReadAs.added`: how new values are read.
-/

open TextPieces

namespace Cxdb

inductive Format where
  | chat
  | responses
  | anthropic
  deriving DecidableEq

namespace Format

def protocol : Format → ProtocolKind
  | .chat | .responses => .openAi
  | .anthropic => .anthropic

/-- The values of a request in this format. -/
def values (format : Format) (payload : JsonValue) : Option (List JsonValue) :=
  match format with
  | .chat | .anthropic => payload.arrayField "messages"
  | .responses =>
      if (payload.arrayField "messages").isNone then payload.arrayField "input" else none

variable (serde : SerdeJson)

/-- What is read of a request. -/
def parseHistory (format : Format) (payload : JsonValue) : Except String (List HistoryItem) :=
  match format with
  | .chat | .responses => OpenAi.parseRequestHistory serde payload
  | .anthropic => Anthropic.parseRequestHistory serde payload

/-- What is read of a value. -/
def parseValue (model : Option String) : Format → JsonValue → Except String (List HistoryItem)
  | .chat => OpenAi.parseChatMessage serde model
  | .responses => OpenAi.parseInputItem serde model
  | .anthropic => Anthropic.parseMessage serde model

/-- The values that are read. -/
def conversation (format : Format) (values : List JsonValue) : List JsonValue :=
  match format with
  | .chat | .anthropic => values
  | .responses => (OpenAi.afterDeveloper values).dropWhile (OpenAi.isBootstrapInputItem serde)

end Format

variable {serde : SerdeJson}

/-- **What is read of a request** is what is read of its values. -/
theorem parseHistory_eq {format : Format} {payload : JsonValue} {values : List JsonValue}
    (h : format.values payload = some values) :
    format.parseHistory serde payload =
      parseEach (format.parseValue serde ((payload.get "model").bind JsonValue.asStr))
        (format.conversation serde values) := by
  cases format with
  | chat =>
      rw [Format.values] at h
      simp only [Format.parseHistory, OpenAi.parseRequestHistory, h]
      rfl
  | anthropic =>
      rw [Format.values] at h
      simp only [Format.parseHistory, Anthropic.parseRequestHistory, h]
      rfl
  | responses =>
      rw [Format.values] at h
      split at h
      next hmessages =>
        simp only [Format.parseHistory, OpenAi.parseRequestHistory, h,
          Option.isNone_iff_eq_none.mp hmessages]
        rfl
      · cases h

/-! ### Reading values -/

/-- The values are read as these items, up to what is left out when histories are compared. -/
def Reads (parse : JsonValue → Except String (List HistoryItem)) (values : List JsonValue)
    (items : List HistoryItem) : Prop :=
  ∃ history, parseEach parse values = .ok history ∧ history.map normalizeHistoryItem = items

section Reads

variable {parse parse' : JsonValue → Except String (List HistoryItem)}
  {values values' : List JsonValue} {items items' : List HistoryItem} {v : JsonValue}

theorem Reads.nil : Reads parse [] [] := ⟨[], rfl, rfl⟩

theorem Reads.cons {history : List HistoryItem} (hv : parse v = .ok history)
    (h : Reads parse values items) :
    Reads parse (v :: values) (history.map normalizeHistoryItem ++ items) := by
  obtain ⟨rest, hrest, rfl⟩ := h
  exact ⟨history ++ rest, by rw [parseEach, hv]; simp only [hrest], List.map_append⟩

theorem reads_cons_iff :
    Reads parse (v :: values) items ↔ ∃ history rest, parse v = .ok history ∧
      Reads parse values rest ∧ items = history.map normalizeHistoryItem ++ rest := by
  constructor
  · rintro ⟨all, hall, rfl⟩
    rw [parseEach] at hall
    split at hall
    · cases hall
    next history hv =>
      split at hall
      · cases hall
      next rest hrest =>
        cases hall
        exact ⟨history, _, hv, ⟨rest, hrest, rfl⟩, List.map_append⟩
  · rintro ⟨history, rest, hv, hrest, rfl⟩
    exact hrest.cons hv

/-- **More values are more items.** -/
theorem Reads.append (h : Reads parse values items) (h' : Reads parse values' items') :
    Reads parse (values ++ values') (items ++ items') := by
  induction values generalizing items with
  | nil =>
      obtain ⟨_, hnil, rfl⟩ := h
      cases hnil
      exact h'
  | cons v values ih =>
      obtain ⟨history, rest, hv, hrest, rfl⟩ := reads_cons_iff.mp h
      rw [List.cons_append, List.append_assoc]
      exact (ih hrest).cons hv

/-- If there is a first history, then the second one is the same when they are compared. -/
def SameItems (x y : Except String (List HistoryItem)) : Prop :=
  ∀ history, x = .ok history → ∃ history', y = .ok history' ∧
    history'.map normalizeHistoryItem = history.map normalizeHistoryItem

theorem SameItems.refl (x : Except String (List HistoryItem)) : SameItems x x :=
  fun history h => ⟨history, h, rfl⟩

theorem SameItems.ok {history history' : List HistoryItem}
    (h : history'.map normalizeHistoryItem = history.map normalizeHistoryItem) :
    SameItems (.ok history) (.ok history') := by
  rintro _ ⟨rfl⟩
  exact ⟨history', rfl, h⟩

/-- Another way to read values that gives the same items. -/
theorem Reads.mono (hparse : ∀ v, SameItems (parse v) (parse' v)) (h : Reads parse values items) : Reads parse' values items := by
  induction values generalizing items with
  | nil =>
      obtain ⟨_, hnil, rfl⟩ := h
      cases hnil
      exact .nil
  | cons v values ih =>
      obtain ⟨history, rest, hv, hrest, rfl⟩ := reads_cons_iff.mp h
      obtain ⟨history', hv', hhistory⟩ := hparse v history hv
      rw [← hhistory]
      exact (ih hrest).cons hv'

end Reads

/-- The model of a request is left out when histories are compared. -/
theorem parseValue_model (format : Format) (model model' : Option String) (v : JsonValue) :
    SameItems (format.parseValue serde model v) (format.parseValue serde model' v) := by
  cases format with
  | chat =>
      simp only [Format.parseValue, OpenAi.parseChatMessage]
      split
      · exact .refl _
      · split
        · exact .refl _
        · split
          · exact .ok rfl
          · exact .refl _
  | responses =>
      simp only [Format.parseValue, OpenAi.parseInputItem]
      split
      · exact .refl _
      · split
        · exact .refl _
        · split
          · exact .refl _
          · split
            · exact .ok rfl
            · exact .refl _
  | anthropic =>
      simp only [Format.parseValue, Anthropic.parseMessage]
      split
      · exact .refl _
      · split
        · exact .refl _
        · split
          · cases v.fieldOrNull "content" with
            | null | string | array => exact .ok rfl
            | bool | number | object => exact .refl _
          · exact .refl _

/-! ### Conversations -/

variable (serde) in
/-- Whatever the model, a request with these values has these items. -/
def ReadAs (format : Format) (values : List JsonValue) (items : List HistoryItem) : Prop :=
  ∀ model, Reads (format.parseValue serde model) (format.conversation serde values) items

/-- What is read of one request can be read of another one with its values. -/
theorem readAs_of_parseHistory {format : Format} {payload : JsonValue} {values : List JsonValue}
    {history : List HistoryItem} (hvalues : format.values payload = some values)
    (h : format.parseHistory serde payload = .ok history) :
    ReadAs serde format values (history.map normalizeHistoryItem) := by
  intro model
  rw [parseHistory_eq hvalues] at h
  exact Reads.mono (parseValue_model format _ model) ⟨history, h, rfl⟩

theorem ReadAs.parseHistory {format : Format} {payload : JsonValue} {values : List JsonValue}
    {items : List HistoryItem} (h : ReadAs serde format values items)
    (hvalues : format.values payload = some values) :
    ∃ history, format.parseHistory serde payload = .ok history ∧
      history.map normalizeHistoryItem = items := by
  rw [parseHistory_eq hvalues]
  exact h _

/-! ### New values -/

variable (serde) in
/-- A value that a client adds, and the items in it. -/
inductive NewValue : Format → JsonValue → List HistoryItem → Prop
  | chatUser {v : JsonValue} : OpenAi.strOf (v.get "role") = some "user" →
      NewValue .chat v [.userInput (OpenAi.contentOf serde v) []]
  | chatAssistant {v : JsonValue} : OpenAi.strOf (v.get "role") = some "assistant" →
      NewValue .chat v [.assistantTurn (OpenAi.contentOf serde v)
        (OpenAi.parseToolCalls serde (v.get "tool_calls")) none none]
  | chatTool {v : JsonValue} : OpenAi.strOf (v.get "role") = some "tool" →
      NewValue .chat v
        [.toolResult (v.strField "tool_call_id") (OpenAi.contentOf serde v) false]
  | responsesUser {v : JsonValue} : (OpenAi.strOf (v.get "type")).all (· = "message") →
      OpenAi.strOf (v.get "role") = some "user" →
      NewValue .responses v [.userInput (OpenAi.contentOf serde v) []]
  | responsesAssistant {v : JsonValue} : (OpenAi.strOf (v.get "type")).all (· = "message") →
      OpenAi.strOf (v.get "role") = some "assistant" →
      NewValue .responses v [.assistantTurn (OpenAi.contentOf serde v) [] none none]
  | responsesCall {v : JsonValue} : v.typeIs "function_call" → ¬ OpenAi.isDeveloper v →
      NewValue .responses v [.assistantTurn ""
        [⟨OpenAi.callIdOf v, v.strField "name", OpenAi.argumentsOf serde v⟩] none none]
  | responsesResult {v : JsonValue} : v.typeIs "function_call_output" → ¬ OpenAi.isDeveloper v →
      NewValue .responses v
        [.toolResult (OpenAi.callIdOf v) (contentToText serde (v.fieldOrNull "output")) false]
  | anthropicUser {v : JsonValue} : (v.get "role").bind JsonValue.asStr = some "user" →
      NewValue .anthropic v (Anthropic.parseUserBlocks serde (v.fieldOrNull "content"))
  | anthropicAssistant {v : JsonValue} {values : List JsonValue} :
      (v.get "role").bind JsonValue.asStr = some "assistant" →
      v.get "content" = some (.array values) →
      NewValue .anthropic v [.assistantTurn (Anthropic.contentText values)
        (Anthropic.contentToolCalls serde values) none none]

/-- A tool call or the result of one, outside of a message. -/
def CallOrResult (v : JsonValue) : Prop :=
  v.typeIs "function_call" ∨ v.typeIs "function_call_output"

theorem normalize_userBlocks (textBuffer : String) (blocks : List JsonValue) :
    (Anthropic.userBlocks serde textBuffer blocks).map normalizeHistoryItem =
      Anthropic.userBlocks serde textBuffer blocks := by
  have hflush (textBuffer : String) :
      (Anthropic.flush textBuffer).map normalizeHistoryItem = Anthropic.flush textBuffer := by
    rw [Anthropic.flush]
    split <;> rfl
  induction blocks generalizing textBuffer with
  | nil => exact hflush textBuffer
  | cons block blocks ih =>
      rw [Anthropic.userBlocks]
      split
      · exact ih _
      · split
        · rw [List.map_append, hflush, List.map_cons, ih]
          rfl
        · exact ih _

theorem normalize_parseUserBlocks (content : JsonValue) :
    (Anthropic.parseUserBlocks serde content).map normalizeHistoryItem =
      Anthropic.parseUserBlocks serde content := by
  cases content with
  | array blocks => exact normalize_userBlocks _ _
  | null | bool | number | string | object => rfl

/-- A message is not left out. -/
theorem parseInputItem_message {v : JsonValue} {role : String} (model : Option String)
    (htype : (OpenAi.strOf (v.get "type")).all (· = "message"))
    (hrole : OpenAi.strOf (v.get "role") = some role) (hknown : role = "user" ∨ role = "assistant") :
    OpenAi.parseInputItem serde model v =
      .ok (if role = "user" then [.userInput (OpenAi.contentOf serde v) []]
        else [.assistantTurn (OpenAi.contentOf serde v) [] model none]) := by
  have hany : (OpenAi.strOf (v.get "type")).any (· ≠ "message") = false := by
    cases htext : OpenAi.strOf (v.get "type") with
    | none => rfl
    | some t => simpa [htext] using htype
  rw [OpenAi.parseInputItem, hany, if_neg Bool.false_ne_true, hrole]
  rcases hknown with rfl | rfl <;> rfl

/-- **New values are read as their items**, but for tool calls and results outside of messages. -/
theorem NewValue.parseValue {format : Format} {v : JsonValue} {items : List HistoryItem}
    (h : NewValue serde format v items) (hcall : format = .responses → ¬ CallOrResult v)
    (model : Option String) :
    ∃ history, format.parseValue serde model v = .ok history ∧
      history.map normalizeHistoryItem = items := by
  cases h with
  | chatUser hrole =>
      refine ⟨[.userInput _ _], ?_, rfl⟩
      simp only [Format.parseValue, OpenAi.parseChatMessage, hrole, if_true]
  | chatAssistant hrole =>
      refine ⟨[.assistantTurn _ _ model none], ?_, rfl⟩
      simp [Format.parseValue, OpenAi.parseChatMessage, hrole]
  | chatTool hrole =>
      refine ⟨[.toolResult _ _ _], ?_, rfl⟩
      simp [Format.parseValue, OpenAi.parseChatMessage, hrole]
  | responsesUser htype hrole =>
      exact ⟨_, parseInputItem_message model htype hrole (Or.inl rfl), rfl⟩
  | responsesAssistant htype hrole =>
      exact ⟨_, parseInputItem_message model htype hrole (Or.inr rfl), rfl⟩
  | responsesCall htype => exact absurd (Or.inl htype) (hcall rfl)
  | responsesResult htype => exact absurd (Or.inr htype) (hcall rfl)
  | anthropicUser hrole =>
      refine ⟨_, ?_, normalize_parseUserBlocks _⟩
      simp only [Format.parseValue, Anthropic.parseMessage, hrole, if_true]
  | anthropicAssistant hrole hcontent =>
      refine ⟨[.assistantTurn _ _ model none], ?_, rfl⟩
      simp [Format.parseValue, Anthropic.parseMessage, hrole, JsonValue.fieldOrNull, hcontent,
        Anthropic.parseAssistantContent]

/-! ### Answers -/

/-- What an assistant answers. -/
inductive Answer where
  | openAi (message : OpenAi.Message)
  | anthropic (blocks : List Anthropic.Block)

/-- The items of the history in an item of a response. -/
def outputItems : OpenAi.OutputItem → List HistoryItem
  | .message parts => [.assistantTurn (joinLines (parts.filter (· ≠ ""))) [] none none]
  | .functionCall call => [.assistantTurn "" [call] none none]
  | .other => []

namespace Answer

def format : Answer → Format
  | .openAi (.chat _ _) => .chat
  | .openAi (.responses _) => .responses
  | .anthropic _ => .anthropic

variable (serde) in
/-- The items of an answer. -/
def items : Answer → List HistoryItem
  | .openAi (.chat content calls) => [.assistantTurn (content.getD "") calls none none]
  | .openAi (.responses items) => items.flatMap outputItems
  | .anthropic blocks =>
      [.assistantTurn (Anthropic.blocksText blocks) (Anthropic.blocksCalls serde blocks) none none]

/-- The values by which a client shows the answer in its next request. -/
def Echoes : Answer → List JsonValue → Prop
  | .openAi (.chat content calls), values => ∃ v, values = [v] ∧
      OpenAi.strOf (v.get "role") = some "assistant" ∧
      v.fieldOrNull "content" = OpenAi.contentValue content ∧
      List.Forall₂ OpenAi.CallShows calls ((v.arrayField "tool_calls").getD [])
  | .openAi (.responses items), values => List.Forall₂ OpenAi.OutputItem.Shows items values ∧
      ∀ v ∈ values, (OpenAi.strOf (v.get "type")).isSome ∧ ¬ OpenAi.isDeveloper v
  | .anthropic blocks, values => ∃ v items, values = [v] ∧
      (v.get "role").bind JsonValue.asStr = some "assistant" ∧
      v.get "content" = some (.array items) ∧ List.Forall₂ Anthropic.Block.Shows blocks items

/-- A response is at most one message, without function calls. -/
def IsOneMessage : Answer → Prop
  | .openAi (.responses items) =>
      (items.filterMap OpenAi.OutputItem.messageParts).length ≤ 1 ∧ OpenAi.calls items = []
  | _ => True

end Answer

/-- The output of a response is read as its messages. -/
theorem reads_output {items : List OpenAi.OutputItem} {values : List JsonValue}
    (model : Option String) (h : List.Forall₂ OpenAi.OutputItem.Shows items values)
    (htyped : ∀ v ∈ values, (OpenAi.strOf (v.get "type")).isSome) :
    Reads (OpenAi.parseInputItem serde model) values
      ((items.filterMap OpenAi.OutputItem.messageParts).map fun parts =>
        .assistantTurn (joinLines (parts.filter (· ≠ ""))) [] none none) := by
  induction h with
  | nil => exact .nil
  | @cons item v items values hshows _ ih =>
      have hrest := ih fun v' hv' => htyped v' (List.mem_cons_of_mem _ hv')
      have hskip : ¬ v.typeIs "message" → OpenAi.parseInputItem serde model v = .ok [] := by
        intro hne
        obtain ⟨t, ht⟩ := Option.isSome_iff_exists.mp (htyped v List.mem_cons_self)
        have hany : (OpenAi.strOf (v.get "type")).any (· ≠ "message") := by
          rw [ht]
          simp only [Option.any_some, decide_eq_true_eq]
          rintro rfl
          exact hne (OpenAi.typeIs_iff.mpr ht)
        rw [OpenAi.parseInputItem, if_pos hany]
      cases item with
      | message parts =>
          have htype : (OpenAi.strOf (v.get "type")).all (· = "message") := by
            rw [OpenAi.typeIs_iff.mp hshows.1]
            rfl
          have hv : OpenAi.parseInputItem serde model v = _ :=
            parseInputItem_message model htype hshows.2.1 (Or.inr rfl)
          rw [OpenAi.contentOf_of_shows hshows] at hv
          exact hrest.cons hv
      | functionCall call =>
          refine hrest.cons (hskip fun ht => ?_)
          simpa using JsonValue.typeIs_inj ht hshows.1
      | other => exact hrest.cons (hskip hshows.1)

/-- Without function calls there are the messages. -/
theorem flatMap_outputItems {items : List OpenAi.OutputItem} (h : OpenAi.calls items = []) :
    items.flatMap outputItems =
      (items.filterMap OpenAi.OutputItem.messageParts).map fun parts =>
        .assistantTurn (joinLines (parts.filter (· ≠ ""))) [] none none := by
  induction items with
  | nil => rfl
  | cons item items ih =>
      cases item with
      | message parts =>
          rw [List.flatMap_cons, ih h]
          rfl
      | functionCall call => cases h
      | other => exact ih h

/-- **How an answer is read back**: as its items. -/
theorem Answer.Echoes.reads {answer : Answer} {values : List JsonValue}
    (h : answer.Echoes values) (hone : answer.IsOneMessage) (model : Option String) :
    Reads (answer.format.parseValue serde model) values (answer.items serde) := by
  match answer, h with
  | .openAi (.chat content calls), ⟨v, hv, hrole, hcontent, hcalls⟩ =>
      subst hv
      have hv : OpenAi.parseChatMessage serde model v =
          .ok [.assistantTurn (content.getD "") calls model none] := by
        simp [OpenAi.parseChatMessage, hrole, OpenAi.contentOf_of_contentValue hcontent,
          OpenAi.parseToolCalls_of_shows hcalls]
      exact Reads.nil.cons hv
  | .openAi (.responses items), ⟨hshows, htyped⟩ =>
      rw [Answer.items, flatMap_outputItems hone.2]
      exact reads_output model hshows fun v hv => (htyped v hv).1
  | .anthropic blocks, ⟨v, items, hv, hrole, hcontent, hshows⟩ =>
      subst hv
      have hv : Anthropic.parseMessage serde model v =
          .ok [.assistantTurn (Anthropic.blocksText blocks) (Anthropic.blocksCalls serde blocks) model none] := by
        simp [Anthropic.parseMessage, hrole, JsonValue.fieldOrNull, hcontent,
          Anthropic.parseAssistantContent, Anthropic.contentText_of_shows hshows,
          Anthropic.contentToolCalls_of_shows hshows]
      exact Reads.nil.cons hv

/-! ### Longer conversations -/

/-- Values behind the beginning of a conversation belong to it. -/
theorem conversation_append {values rest : List JsonValue}
    (hdeveloper : ∀ v ∈ rest, ¬ OpenAi.isDeveloper v)
    (hbootstrap : ∀ v, rest.head? = some v → ¬ OpenAi.isBootstrapInputItem serde v) :
    Format.responses.conversation serde (values ++ rest) =
      Format.responses.conversation serde values ++ rest := by
  have hafter : OpenAi.afterDeveloper (values ++ rest) =
      OpenAi.afterDeveloper values ++ rest := by
    rw [OpenAi.afterDeveloper, List.reverse_append, List.takeWhile_append_of_pos,
      List.reverse_append, List.reverse_reverse, ← OpenAi.afterDeveloper]
    exact fun v hv => by simpa using hdeveloper v (List.mem_reverse.mp hv)
  rw [Format.conversation, Format.conversation, hafter, List.dropWhile_append]
  split
  next hnil =>
    rw [List.isEmpty_iff.mp hnil, List.nil_append]
    cases rest with
    | nil => rfl
    | cons v rest => rw [List.dropWhile_cons_of_neg (hbootstrap v rfl)]
  · rfl

/-- The output of an assistant is not a client's bootstrap. -/
theorem not_bootstrap_of_shows {item : OpenAi.OutputItem} {v : JsonValue} (h : item.Shows v) :
    ¬ OpenAi.isBootstrapInputItem serde v := by
  rw [OpenAi.isBootstrapInputItem]
  cases item with
  | message parts => simp [h.1, h.2.1]
  | functionCall call =>
      have hne : ¬ v.typeIs "message" := fun ht => by
        simpa using JsonValue.typeIs_inj ht h.1
      simp [hne]
  | other => simp [h.1]

variable (serde) in
/-- The values bring these items. -/
def Adds (format : Format) (values : List JsonValue) (items : List HistoryItem) : Prop :=
  ∃ parts, List.Forall₂ (NewValue serde format) values parts ∧ items = parts.flatten

theorem Adds.reads {format : Format} {values : List JsonValue} {items : List HistoryItem}
    (h : Adds serde format values items)
    (hcalls : format = .responses → ∀ v ∈ values, ¬ CallOrResult v) (model : Option String) :
    Reads (format.parseValue serde model) values items := by
  obtain ⟨parts, hparts, rfl⟩ := h
  induction hparts with
  | nil => exact .nil
  | @cons v items values parts hv _ ih =>
      obtain ⟨history, hhistory, rfl⟩ :=
        hv.parseValue (fun hf => hcalls hf v List.mem_cons_self) model
      exact (ih fun hf w hw => hcalls hf w (List.mem_cons_of_mem _ hw)).cons hhistory

theorem NewValue.not_developer {v : JsonValue} {items : List HistoryItem}
    (h : NewValue serde .responses v items) : ¬ OpenAi.isDeveloper v := by
  cases h with
  | responsesUser _ hrole => simp [OpenAi.isDeveloper, hrole]
  | responsesAssistant _ hrole => simp [OpenAi.isDeveloper, hrole]
  | responsesCall _ hdeveloper => exact hdeveloper
  | responsesResult _ hdeveloper => exact hdeveloper

theorem Adds.not_developer {values : List JsonValue} {items : List HistoryItem}
    (h : Adds serde .responses values items) : ∀ v ∈ values, ¬ OpenAi.isDeveloper v := by
  obtain ⟨parts, hparts, -⟩ := h
  induction hparts with
  | nil => simp
  | cons hv _ ih => exact List.forall_mem_cons.mpr ⟨hv.not_developer, ih⟩

/-- **A request that goes on** from another one, after the answer to it, has the items of both
and the new ones. -/
theorem ReadAs.extend {values echo added : List JsonValue} {items newItems : List HistoryItem}
    {answer : Answer} (h : ReadAs serde answer.format values items) (hecho : answer.Echoes echo)
    (hone : answer.IsOneMessage) (hadded : Adds serde answer.format added newItems)
    (hcalls : answer.format = .responses → ∀ v ∈ added, ¬ CallOrResult v)
    (hbootstrap : echo = [] → ∀ v ∈ added, ¬ OpenAi.isBootstrapInputItem serde v) :
    ReadAs serde answer.format (values ++ (echo ++ added))
      (items ++ (answer.items serde ++ newItems)) := by
  intro model
  have hnew : Reads (answer.format.parseValue serde model) (echo ++ added) _ :=
    (hecho.reads hone model).append (hadded.reads hcalls model)
  have hconversation : answer.format.conversation serde (values ++ (echo ++ added)) =
      answer.format.conversation serde values ++ (echo ++ added) := by
    match answer, hecho with
    | .openAi (.chat _ _), _ => rfl
    | .anthropic _, _ => rfl
    | .openAi (.responses items), ⟨hshows, htyped⟩ =>
        refine conversation_append (fun w hw => ?_) fun v hv => ?_
        · exact (List.mem_append.mp hw).elim (fun hw => (htyped w hw).2)
            (hadded.not_developer w)
        · cases hshows with
          | nil => exact hbootstrap rfl v (List.mem_of_mem_head? hv)
          | @cons item _ _ rest hshows _ =>
              obtain rfl := Option.some.inj hv
              exact not_bootstrap_of_shows hshows
  rw [hconversation]
  exact (h model).append hnew

end Cxdb
