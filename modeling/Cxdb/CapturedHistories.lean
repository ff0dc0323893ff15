import Cxdb.ConversationTypes
import Cxdb.Exchanges

/-!
# Captured Histories

What the turns of a session tell of the histories that it has seen. Every turn becomes an item
of a conversation: an item of a history, or the note that the history has been rewritten. Whoever
reads these items one call after the other can keep the history: a note cuts it back to what it
has in common with the new one, and the items behind the note are the rest.

## Main results

* `observe_replays`, `append_replays`: the items of a call make the new history of the old one.
* `captured_history`: the items of a session make the history that it has observed last.
-/

namespace Cxdb

/-! ### The items of turns -/

section Items

variable (toStringPretty : JsonValue → Option String) (now : Int64)

/-- `pretty_json`. -/
def prettyJson (value : JsonValue) : String :=
  (toStringPretty value).getD
    "\x7b\"message\":\"failed to encode system payload\"\x7d"

/-- `system_item`, for an item with this id. -/
def systemItem (id kind title : String) (payload : JsonValue) : Rust.ConversationItem :=
  ((Rust.newSystemMessage now kind (prettyJson toStringPretty payload)).withTitle title).withId id

def pathField (key : String) (path : Option String) : Option (String × JsonValue) :=
  path.map fun path => (key, .string path)

/-- `ArtifactRefs` in JSON: paths that are not there are left out. -/
def ArtifactRefs.json (artifacts : ArtifactRefs) : JsonValue :=
  .object ([pathField "request_path" artifacts.requestPath,
    pathField "response_path" artifacts.responsePath,
    pathField "stream_path" artifacts.streamPath].filterMap id)

/-- A `usize` in JSON. -/
def usizeJson (n : ℕ) : JsonValue := .number (.posInt (UInt64.ofNat n))

/-- The payload of `rewrite_item`, whose keys are in order. -/
def rewritePayload (sessionId : String) (previousLen newLen : ℕ) (artifacts : ArtifactRefs) :
    JsonValue :=
  .object [("artifacts", artifacts.json), ("new_history_len", usizeJson newLen),
    ("previous_history_len", usizeJson previousLen), ("stable_session_id", .string sessionId)]

/-- `rewrite_item`. -/
def rewriteItem (sessionId id : String) (previousLen newLen : ℕ) (artifacts : ArtifactRefs) :
    Rust.ConversationItem :=
  systemItem toStringPretty now id "rewind" "history_rewrite_detected"
    (rewritePayload sessionId previousLen newLen artifacts)

/-- The branch of `history_item_to_conversation_item` for an assistant's turn. -/
def assistantItem (text : String) (toolCalls : List ToolCallRecord)
    (model finishReason : Option String) : Rust.ConversationItem :=
  let built := toolCalls.foldl
    (fun built call => built.withToolCall (Rust.newToolCallItem call.callId call.name call.args))
    (Rust.newAssistantTurn now text)
  let built :=
    match finishReason.filter (· ≠ "") with
    | some reason => built.withFinishReason reason
    | none => built
  match model.filter (· ≠ "") with
  | some model =>
      built.withFullMetrics
        { inputTokens := 0, outputTokens := 0, totalTokens := 0, cachedTokens := none
          reasoningTokens := none, durationMs := none, model }
  | none => built

/-- `history_item_to_conversation_item`. -/
def historyItemToConversationItem (id : String) : HistoryItem → Rust.ConversationItem
  | .userInput text files => (Rust.newUserInput now text files).withId id
  | .assistantTurn text toolCalls model finishReason =>
      (assistantItem now text toolCalls model finishReason).withId id
  | .toolResult callId content isError =>
      let built := Rust.newToolResult now callId content false
      (if isError then built.withError else built).withId id

/-- The item of a turn that `observe_request_history` or `append_history_item` makes. -/
def TurnEnvelope.conversationItem (sessionId : String) (turn : TurnEnvelope) :
    Option Rust.ConversationItem :=
  match turn.item.body with
  | .history item => some (historyItemToConversationItem now turn.item.id item)
  | .rewrite previousLen newLen artifacts =>
      some (rewriteItem toStringPretty now sessionId turn.item.id previousLen newLen artifacts)
  | _ => none

end Items

/-! ### Reading items -/

/-- The record of a tool call in an item. -/
def Rust.ToolCallItem.record (call : Rust.ToolCallItem) : ToolCallRecord :=
  ⟨call.id, call.name, call.args⟩

/-- The item of a history that an item of a conversation carries, without the model and the
reason for the end. -/
def Rust.ConversationItem.carried (item : Rust.ConversationItem) : Option HistoryItem :=
  if item.itemType = "user_input" then item.userInput.map fun u => .userInput u.text u.files
  else if item.itemType = "assistant_turn" then
    item.turn.map fun t =>
      .assistantTurn t.text (t.toolCalls.map Rust.ToolCallItem.record) none none
  else if item.itemType = "tool_result" then
    item.toolResult.map fun r => .toolResult r.callId r.content r.isError
  else none

variable (serde : SerdeJson)

/-- The length of the new history that a note of a rewrite tells. -/
def Rust.ConversationItem.newHistoryLen (item : Rust.ConversationItem) : Option ℕ :=
  match item.system with
  | some message =>
      if message.title = "history_rewrite_detected" then
        match serde.fromStr message.content with
        | .ok payload => ((payload.get "new_history_len").bind JsonValue.asU64).map UInt64.toNat
        | .error _ => none
      else none
  | none => none

/-- **Read the items of a call**: a note of a rewrite cuts the history back by as much as the
items behind it put there again, and any other item is put behind it. -/
def replayItems : List HistoryItem → List Rust.ConversationItem → List HistoryItem
  | history, [] => history
  | history, item :: items =>
      match item.newHistoryLen serde with
      | some newLen =>
          let restored := items.filterMap Rust.ConversationItem.carried
          replayItems (history.take (newLen - restored.length)) items
      | none => replayItems (history ++ item.carried.toList) items

/-- Read the items of a session, call by call. -/
def replaySession (calls : List (List Rust.ConversationItem)) : List HistoryItem :=
  calls.foldl (replayItems serde) []

/-! ### What items carry -/

variable {serde} {toStringPretty : JsonValue → Option String} {now : Int64}

/-- An assistant's turn with this text and these tool calls. -/
structure Rust.ConversationItem.IsAssistantTurn (item : Rust.ConversationItem) (text : String)
    (calls : List ToolCallRecord) : Prop where
  itemType : item.itemType = "assistant_turn"
  system : item.system = none
  turn : ∃ turn, item.turn = some turn ∧ turn.text = text ∧
    turn.toolCalls.map Rust.ToolCallItem.record = calls

/-- A method that changes at most the tool calls. -/
theorem Rust.ConversationItem.IsAssistantTurn.mapTurn {item : Rust.ConversationItem}
    {text : String} {calls c : List ToolCallRecord} (h : item.IsAssistantTurn text calls)
    {f : Rust.AssistantTurn → Rust.AssistantTurn} (htext : ∀ t, (f t).text = t.text)
    (hcalls : ∀ t, (f t).toolCalls.map Rust.ToolCallItem.record =
      t.toolCalls.map Rust.ToolCallItem.record ++ c) :
    (item.mapTurn f).IsAssistantTurn text (calls ++ c) := by
  obtain ⟨htype, hsystem, turn, hturn, rfl, rfl⟩ := h
  refine ⟨htype, hsystem, f turn, ?_, htext turn, hcalls turn⟩
  rw [Rust.ConversationItem.mapTurn, hturn, Option.map_some]

theorem isAssistantTurn_withToolCalls (toolCalls : List ToolCallRecord)
    {item : Rust.ConversationItem} {text : String} {calls : List ToolCallRecord}
    (h : item.IsAssistantTurn text calls) :
    (toolCalls.foldl (fun built call =>
      built.withToolCall (Rust.newToolCallItem call.callId call.name call.args))
      item).IsAssistantTurn text (calls ++ toolCalls) := by
  induction toolCalls generalizing item calls with
  | nil => rwa [List.append_nil]
  | cons call toolCalls ih =>
      have hone : (item.withToolCall (Rust.newToolCallItem call.callId call.name
          call.args)).IsAssistantTurn text (calls ++ [call]) :=
        h.mapTurn (fun _ => rfl) fun _ => List.map_append
      have hall := ih hone
      rwa [List.append_assoc] at hall

/-- What is built of an assistant's turn. -/
theorem isAssistantTurn_assistantItem (now : Int64) (text : String) (toolCalls : List ToolCallRecord)
    (model finishReason : Option String) :
    (assistantItem now text toolCalls model finishReason).IsAssistantTurn text toolCalls := by
  have hnew : (Rust.newAssistantTurn now text).IsAssistantTurn text [] :=
    ⟨rfl, rfl, _, rfl, rfl, rfl⟩
  have hcalls := isAssistantTurn_withToolCalls toolCalls hnew
  rw [List.nil_append] at hcalls
  have hkeep : ∀ {item : Rust.ConversationItem} {f : Rust.AssistantTurn → Rust.AssistantTurn},
      item.IsAssistantTurn text toolCalls → (∀ t, (f t).text = t.text) →
      (∀ t, (f t).toolCalls = t.toolCalls) → (item.mapTurn f).IsAssistantTurn text toolCalls := by
    intro item f h htext hsame
    have := h.mapTurn (c := []) htext fun t => by rw [hsame t, List.append_nil]
    rwa [List.append_nil] at this
  rw [assistantItem]
  split <;> split
  · exact hkeep (hkeep hcalls (fun _ => rfl) fun _ => rfl) (fun _ => rfl) fun _ => rfl
  · exact hkeep hcalls (fun _ => rfl) fun _ => rfl
  · exact hkeep hcalls (fun _ => rfl) fun _ => rfl
  · exact hcalls

/-- **An item carries what it is built from.** -/
theorem carried_historyItem (serde : SerdeJson) (now : Int64) (id : String)
    (item : HistoryItem) :
    (historyItemToConversationItem now id item).carried = some (normalizeHistoryItem item) ∧
      (historyItemToConversationItem now id item).newHistoryLen serde = none := by
  cases item with
  | userInput text files => exact ⟨rfl, rfl⟩
  | toolResult callId content isError => cases isError <;> exact ⟨rfl, rfl⟩
  | assistantTurn text toolCalls model finishReason =>
      obtain ⟨htype, hsystem, turn, hturn, htext, hcalls⟩ :=
        isAssistantTurn_assistantItem now text toolCalls model finishReason
      rw [historyItemToConversationItem, Rust.ConversationItem.withId]
      constructor
      · simp [Rust.ConversationItem.carried, htype, hturn, htext, hcalls, normalizeHistoryItem]
      · simp [Rust.ConversationItem.newHistoryLen, hsystem]

/-- The payload of a note is read back as it has been written. -/
def ReadsBack (serde : SerdeJson) (toStringPretty : JsonValue → Option String)
    (payload : JsonValue) : Prop :=
  ∃ text, toStringPretty payload = some text ∧ serde.fromStr text = .ok payload

/-- **A note tells the length of the new history**, and carries no item. -/
theorem newHistoryLen_rewriteItem (now : Int64) (id : String) {sessionId : String}
    {previousLen newLen : ℕ} {artifacts : ArtifactRefs} (hlen : newLen < 2 ^ 64)
    (hread : ReadsBack serde toStringPretty
      (rewritePayload sessionId previousLen newLen artifacts)) :
    (rewriteItem toStringPretty now sessionId id previousLen newLen artifacts).newHistoryLen
      serde = some newLen := by
  obtain ⟨text, htext, hread⟩ := hread
  have hsystem : (rewriteItem toStringPretty now sessionId id previousLen newLen
      artifacts).system = some ⟨"rewind", "history_rewrite_detected", text⟩ := by
    rw [rewriteItem, systemItem, prettyJson, htext]
    rfl
  have hnumber : ((rewritePayload sessionId previousLen newLen artifacts).get
      "new_history_len").bind JsonValue.asU64 = some (UInt64.ofNat newLen) := by
    simp [rewritePayload, JsonValue.get, usizeJson, JsonValue.asU64, JsonNumber.asU64,
      List.lookup_cons]
  rw [Rust.ConversationItem.newHistoryLen, hsystem]
  simp only [if_true, hread, hnumber, Option.map_some, UInt64.toNat_ofNat',
    Nat.mod_eq_of_lt hlen]

theorem carried_rewriteItem (sessionId id : String) (previousLen newLen : ℕ)
    (artifacts : ArtifactRefs) :
    (rewriteItem toStringPretty now sessionId id previousLen newLen artifacts).carried = none :=
  rfl

/-! ### What a call makes of a history -/

section Calls

variable (toStringPretty) (clock : UInt64 → Int64) (sessionId : String)

/-- The items of some turns, each built at its time. -/
def capturedItems (turns : List TurnEnvelope) : List Rust.ConversationItem :=
  turns.filterMap fun turn =>
    turn.conversationItem toStringPretty (clock turn.ordinal) sessionId

end Calls

variable {clock : UInt64 → Int64}

variable (serde toStringPretty clock) in
/-- The items of a history are put behind another one. -/
theorem historyTurns_replays (sessionId exchangeId : String) (items : List HistoryItem)
    (state : MutableState) (history : List HistoryItem) :
    let captured := capturedItems toStringPretty clock sessionId
      (historyTurns sessionId exchangeId items state).1
    captured.filterMap Rust.ConversationItem.carried = items.map normalizeHistoryItem ∧
      replayItems serde history captured = history ++ items.map normalizeHistoryItem := by
  induction items generalizing state history with
  | nil => exact ⟨rfl, (List.append_nil _).symm⟩
  | cons item items ih =>
      intro captured
      set turn := (nextTurn sessionId exchangeId (.history item) state).1 with hturn
      have hcaptured : captured =
          historyItemToConversationItem (clock turn.ordinal) turn.item.id item ::
            capturedItems toStringPretty clock sessionId (historyTurns sessionId exchangeId items
              (nextTurn sessionId exchangeId (.history item) state).2).1 := rfl
      obtain ⟨hcarried, hnote⟩ :=
        carried_historyItem serde (clock turn.ordinal) turn.item.id item
      obtain ⟨hrest, hreplay⟩ := ih (nextTurn sessionId exchangeId (.history item) state).2
        (history ++ [normalizeHistoryItem item])
      rw [hcaptured]
      constructor
      · rw [List.filterMap_cons_some hcarried, hrest, List.map_cons]
      · rw [replayItems, hnote, hcarried]
        simp only [Option.toList_some, hreplay, List.map_cons, List.append_assoc,
          List.singleton_append]

theorem commonPrefixLen_le (left right : List HistoryItem) :
    commonPrefixLen left right ≤ right.length := by
  induction left, right using commonPrefixLen.induct with
  | case1 l left right ih =>
      rw [commonPrefixLen, if_pos rfl, List.length_cons]
      omega
  | case2 l left r right hne =>
      rw [commonPrefixLen, if_neg hne]
      exact Nat.zero_le _
  | case3 left right h =>
      rw [commonPrefixLen]
      · exact Nat.zero_le _
      · exact h

/-- What two histories have in common is the beginning of both. -/
theorem take_commonPrefixLen (left right : List HistoryItem) :
    left.take (commonPrefixLen left right) = right.take (commonPrefixLen left right) := by
  induction left, right using commonPrefixLen.induct with
  | case1 l left right ih => rw [commonPrefixLen, if_pos rfl, List.take_succ_cons,
      List.take_succ_cons, ih]
  | case2 l left r right hne => rw [commonPrefixLen, if_neg hne, List.take_zero, List.take_zero]
  | case3 left right h =>
      rw [commonPrefixLen]
      · rw [List.take_zero, List.take_zero]
      · exact h

/-- The notes among the turns can be read. -/
def NotesReadBack (serde : SerdeJson) (toStringPretty : JsonValue → Option String)
    (sessionId : String) (turns : List TurnEnvelope) : Prop :=
  ∀ turn ∈ turns, ∀ previousLen newLen artifacts,
    turn.item.body = .rewrite previousLen newLen artifacts →
    ReadsBack serde toStringPretty (rewritePayload sessionId previousLen newLen artifacts)

/-- **A history that is observed** is made of the one before. -/
theorem observe_replays {session : SessionRuntime} {exchangeId : String}
    {history : List HistoryItem} {artifacts : ArtifactRefs} (hlen : history.length < 2 ^ 64)
    (hread : NotesReadBack serde toStringPretty session.sessionId
      (session.observeRequestHistory exchangeId history artifacts).1) :
    replayItems serde session.state.observedHistory
        (capturedItems toStringPretty clock session.sessionId
          (session.observeRequestHistory exchangeId history artifacts).1) =
      history.map normalizeHistoryItem := by
  set previous := session.state.observedHistory with hprevious
  set common := commonPrefixLen previous (history.map normalizeHistoryItem) with hcommon
  have hle : common ≤ history.length := by
    have := commonPrefixLen_le previous (history.map normalizeHistoryItem)
    rwa [List.length_map] at this
  have htake : previous.take common = (history.map normalizeHistoryItem).take common :=
    take_commonPrefixLen _ _
  have hdrop : (history.drop common).map normalizeHistoryItem =
      (history.map normalizeHistoryItem).drop common := List.map_drop
  rw [SessionRuntime.observeRequestHistory] at hread ⊢
  simp only [← hprevious, ← hcommon] at hread ⊢
  by_cases hrewrite : common < previous.length
  · simp only [if_pos hrewrite] at hread ⊢
    set turn := (nextTurn session.sessionId exchangeId
      (.rewrite previous.length history.length artifacts) session.state).1 with hturn
    set state := (nextTurn session.sessionId exchangeId
      (.rewrite previous.length history.length artifacts) session.state).2
    obtain ⟨hcarried, hreplay⟩ := historyTurns_replays serde toStringPretty clock
      session.sessionId exchangeId (history.drop common) state (previous.take common)
    have hnote := newHistoryLen_rewriteItem (clock turn.ordinal) turn.item.id hlen
      (hread turn (by simp) previous.length history.length artifacts rfl)
    have hcaptured : capturedItems toStringPretty clock session.sessionId
        ([turn] ++ (historyTurns session.sessionId exchangeId (history.drop common) state).1) =
        rewriteItem toStringPretty (clock turn.ordinal) session.sessionId turn.item.id
            previous.length history.length artifacts ::
          capturedItems toStringPretty clock session.sessionId
            (historyTurns session.sessionId exchangeId (history.drop common) state).1 := rfl
    have hcut : history.length - (history.drop common).length = common := by
      rw [List.length_drop]
      omega
    rw [hcaptured, replayItems, hnote]
    simp only [hcarried, List.length_map, hcut, hreplay]
    rw [hdrop, htake, List.take_append_drop]
  · simp only [if_neg hrewrite, List.nil_append]
    have hall : previous.take common = previous := List.take_of_length_le (by omega)
    rw [(historyTurns_replays serde toStringPretty clock session.sessionId exchangeId
      (history.drop common) session.state previous).2, hdrop, ← hall, htake,
      List.take_append_drop]

/-- **An item that is appended** is put behind the history. -/
theorem append_replays {session : SessionRuntime} (exchangeId : String) (item : HistoryItem) :
    replayItems serde session.state.observedHistory
        (capturedItems toStringPretty clock session.sessionId
          [(session.appendHistoryItem exchangeId item).1]) =
      (session.appendHistoryItem exchangeId item).2.state.observedHistory := by
  set turn := (session.appendHistoryItem exchangeId item).1 with hturn
  have hcaptured : capturedItems toStringPretty clock session.sessionId [turn] =
      [historyItemToConversationItem (clock turn.ordinal) turn.item.id item] := rfl
  obtain ⟨hcarried, hnote⟩ := carried_historyItem serde (clock turn.ordinal) turn.item.id item
  rw [hcaptured, replayItems, hnote, hcarried]
  rfl

/-! ### Sessions -/

/-- The turns of some calls, one call after the other, and the session after them. -/
def SessionRuntime.calls (s : SessionRuntime) :
    List SessionCall → List (List TurnEnvelope) × SessionRuntime
  | [] => ([], s)
  | c :: cs =>
      let (turns, s) := s.call c
      let (rest, s) := s.calls cs
      (turns :: rest, s)

/-- A call that is about the history, which is no longer than a vector can be. -/
def SessionCall.OfHistory : SessionCall → Prop
  | .observeRequestHistory _ history _ => history.length < 2 ^ 64
  | .appendHistoryItem _ _ => True
  | _ => False

/-- What a call says that the history is then. -/
def SessionCall.shows : SessionCall → Option (List HistoryItem)
  | .observeRequestHistory _ history _ => some (history.map normalizeHistoryItem)
  | _ => none

theorem call_sessionId (s : SessionRuntime) (c : SessionCall) :
    (s.call c).2.sessionId = s.sessionId := by
  cases c <;> rfl

/-- A turn that has an item, under its id. -/
def TurnEnvelope.HasItem (toStringPretty : JsonValue → Option String)
    (clock : UInt64 → Int64) (sessionId : String) (turn : TurnEnvelope) : Prop :=
  ∃ item, turn.conversationItem toStringPretty (clock turn.ordinal) sessionId = some item ∧
    item.id = turn.item.id

theorem nextTurn_hasItem (sessionId exchangeId : String) (item : HistoryItem)
    (state : MutableState) :
    (nextTurn sessionId exchangeId (.history item) state).1.HasItem toStringPretty clock
      sessionId := by
  refine ⟨_, rfl, ?_⟩
  cases item <;> rfl

theorem historyTurns_hasItem (sessionId exchangeId : String) (items : List HistoryItem)
    (state : MutableState) :
    ∀ turn ∈ (historyTurns sessionId exchangeId items state).1,
      turn.HasItem toStringPretty clock sessionId := by
  induction items generalizing state with
  | nil => exact fun _ h => absurd h List.not_mem_nil
  | cons item items ih =>
      intro turn hturn
      rcases List.mem_cons.mp hturn with rfl | hturn
      · exact nextTurn_hasItem _ _ _ _
      · exact ih _ turn hturn

/-- **Every turn of a call has its item.** -/
theorem call_hasItem {s : SessionRuntime} {c : SessionCall} (hc : c.OfHistory) :
    ∀ turn ∈ (s.call c).1, turn.HasItem toStringPretty clock s.sessionId := by
  intro turn hturn
  cases c with
  | sessionStart | sessionEnd | providerError => exact hc.elim
  | appendHistoryItem exchangeId item =>
      obtain rfl := List.mem_singleton.mp hturn
      exact nextTurn_hasItem _ _ _ _
  | observeRequestHistory exchangeId history artifacts =>
      rw [SessionRuntime.call, SessionRuntime.observeRequestHistory] at hturn
      rcases List.mem_append.mp hturn with hturn | hturn
      · split_ifs at hturn
        · obtain rfl := List.mem_singleton.mp hturn
          exact ⟨_, rfl, rfl⟩
        · exact absurd hturn List.not_mem_nil
      · exact historyTurns_hasItem _ _ _ _ turn hturn

variable (clock) in
/-- **One call**: its items make the new history of the old one. -/
theorem call_replays {s : SessionRuntime} {c : SessionCall} (hc : c.OfHistory)
    (hread : NotesReadBack serde toStringPretty s.sessionId (s.call c).1) :
    replayItems serde s.state.observedHistory
        (capturedItems toStringPretty clock s.sessionId (s.call c).1) =
      (s.call c).2.state.observedHistory ∧
      ∀ history ∈ c.shows, (s.call c).2.state.observedHistory = history := by
  cases c with
  | sessionStart | sessionEnd | providerError => exact hc.elim
  | appendHistoryItem exchangeId item =>
      exact ⟨append_replays exchangeId item, fun _ h => nomatch h⟩
  | observeRequestHistory exchangeId history artifacts =>
      refine ⟨observe_replays hc hread, fun _ h => ?_⟩
      obtain rfl := Option.some.inj h
      rfl

theorem OrdinalsRun.append {n m k : UInt64} {turns turns' : List TurnEnvelope}
    (h : OrdinalsRun n turns m) (h' : OrdinalsRun m turns' k) :
    OrdinalsRun n (turns ++ turns') k := by
  induction h with
  | nil => exact h'
  | cons hturn _ ih => exact .cons hturn (ih h')

variable (clock) in
/-- **Any number of calls.** -/
theorem calls_replay {s : SessionRuntime} {cs : List SessionCall} (hcs : ∀ c ∈ cs, c.OfHistory)
    (hread : NotesReadBack serde toStringPretty s.sessionId (s.calls cs).1.flatten) :
    OrdinalsRun s.state.nextTurnOrdinal (s.calls cs).1.flatten
        (s.calls cs).2.state.nextTurnOrdinal ∧
      (∀ turn ∈ (s.calls cs).1.flatten, turn.HasItem toStringPretty clock s.sessionId) ∧
      ((s.calls cs).1.map (capturedItems toStringPretty clock s.sessionId)).foldl
        (replayItems serde) s.state.observedHistory = (s.calls cs).2.state.observedHistory ∧
      ∀ c ∈ cs.getLast?, ∀ history ∈ c.shows,
        (s.calls cs).2.state.observedHistory = history := by
  induction cs generalizing s with
  | nil => exact ⟨.nil _, fun _ h => absurd h List.not_mem_nil, rfl, fun _ h => nomatch h⟩
  | cons c cs ih =>
      have hcalls : s.calls (c :: cs) =
          ((s.call c).1 :: ((s.call c).2.calls cs).1, ((s.call c).2.calls cs).2) := rfl
      rw [hcalls] at hread ⊢
      simp only [List.flatten_cons, List.map_cons, List.foldl_cons] at hread ⊢
      have hone : NotesReadBack serde toStringPretty s.sessionId (s.call c).1 :=
        fun turn hturn => hread turn (List.mem_append_left _ hturn)
      have hrest : NotesReadBack serde toStringPretty (s.call c).2.sessionId
          ((s.call c).2.calls cs).1.flatten := by
        rw [call_sessionId]
        exact fun turn hturn => hread turn (List.mem_append_right _ hturn)
      obtain ⟨hreplay, hshows⟩ := call_replays clock (hcs c List.mem_cons_self) hone
      obtain ⟨hordinals, hitems, hreplays, hlast⟩ :=
        ih (fun d hd => hcs d (List.mem_cons_of_mem _ hd)) hrest
      rw [call_sessionId] at hitems hreplays
      refine ⟨(s.call_ordinals c).append hordinals, fun turn hturn => ?_,
        by rw [hreplay, hreplays], ?_⟩
      · rcases List.mem_append.mp hturn with hturn | hturn
        · exact call_hasItem (hcs c List.mem_cons_self) turn hturn
        · exact hitems turn hturn
      intro d hd
      cases cs with
      | nil =>
          obtain rfl : c = d := Option.some.inj hd
          exact hshows
      | cons c' cs => exact hlast d (by rwa [List.getLast?_cons_cons] at hd)

/-- More calls make more turns. -/
theorem calls_append (s : SessionRuntime) (done rest : List SessionCall) :
    ∃ more, (s.calls (done ++ rest)).1 = (s.calls done).1 ++ more := by
  induction done generalizing s with
  | nil => exact ⟨_, rfl⟩
  | cons c done ih =>
      obtain ⟨more, hmore⟩ := ih (s.call c).2
      exact ⟨more, congrArg ((s.call c).1 :: ·) hmore⟩

/-- **The captured turns hold the history.** After every call of a session, the items of its
turns, read in the order of their ordinals, make the history that the session has observed;
after a request that is the history of the request. -/
theorem captured_history {s : SessionRuntime} (hs : s.state.observedHistory = [])
    {cs : List SessionCall} (hcs : ∀ c ∈ cs, c.OfHistory)
    (hread : NotesReadBack serde toStringPretty s.sessionId (s.calls cs).1.flatten)
    {done : List SessionCall} (hdone : done <+: cs) :
    OrdinalsRun s.state.nextTurnOrdinal (s.calls done).1.flatten
        (s.calls done).2.state.nextTurnOrdinal ∧
      (∀ turn ∈ (s.calls done).1.flatten, turn.HasItem toStringPretty clock s.sessionId) ∧
      replaySession serde
          ((s.calls done).1.map (capturedItems toStringPretty clock s.sessionId)) =
        (s.calls done).2.state.observedHistory ∧
      ∀ c ∈ done.getLast?, ∀ history ∈ c.shows,
        (s.calls done).2.state.observedHistory = history := by
  obtain ⟨rest, rfl⟩ := hdone
  obtain ⟨more, hmore⟩ := calls_append s done rest
  have hread' : NotesReadBack serde toStringPretty s.sessionId (s.calls done).1.flatten := by
    intro turn hturn
    refine hread turn ?_
    rw [hmore, List.flatten_append]
    exact List.mem_append_left _ hturn
  have h := calls_replay clock (fun c hc => hcs c (List.mem_append_left _ hc)) hread'
  rw [hs] at h
  exact h

/-- The note of the session below that two items have become one, in JSON. -/
def shorterNote : String :=
  "\x7b\n  \"artifacts\": \x7b\x7d,\n  \"new_history_len\": 1,\n  \"previous_history_len\": 2,\n" ++
    "  \"stable_session_id\": \"s\"\n\x7d"

/-- `serde_json` on that note. -/
def shorterSerde : SerdeJson where
  fromStr text :=
    if text = shorterNote then .ok (rewritePayload "s" 2 1 {}) else .error "not the note"
  doubleText _ := ""

/-- A question and its answer, then another question alone, then its answer. -/
def shorterCalls : List SessionCall :=
  [.observeRequestHistory "exchange-0001"
      [.userInput "a" [], .assistantTurn "b" [⟨"1", "f", ""⟩] (some "m") (some "stop")] {},
    .observeRequestHistory "exchange-0002" [.userInput "c" []] {},
    .appendHistoryItem "exchange-0002" (.assistantTurn "d" [] (some "m") none)]

/-- The conditions can be met: a history that becomes shorter. -/
theorem captured_history_shorter :
    replaySession shorterSerde ((freshSession.calls shorterCalls).1.map
        (capturedItems (fun _ => some shorterNote) (fun _ => 0) "s")) =
      [.userInput "c" [], .assistantTurn "d" [] none none] := by
  have hread : NotesReadBack shorterSerde (fun _ => some shorterNote) freshSession.sessionId
      (freshSession.calls shorterCalls).1.flatten := by
    intro turn hturn previousLen newLen artifacts hbody
    have hturns : ((freshSession.calls shorterCalls).1.flatten.map fun turn => turn.item.body) =
        [.history (.userInput "a" []),
          .history (.assistantTurn "b" [⟨"1", "f", ""⟩] (some "m") (some "stop")),
          .rewrite 2 1 {}, .history (.userInput "c" []),
          .history (.assistantTurn "d" [] (some "m") none)] := rfl
    have hmem := List.mem_map_of_mem (f := fun turn : TurnEnvelope => turn.item.body) hturn
    rw [hturns, hbody] at hmem
    simp only [List.mem_cons, List.not_mem_nil, reduceCtorEq, or_false, false_or,
      ItemBody.rewrite.injEq] at hmem
    obtain ⟨rfl, rfl, rfl⟩ := hmem
    exact ⟨shorterNote, rfl, by simp [shorterSerde, freshSession]⟩
  have hcalls : ∀ c ∈ shorterCalls, c.OfHistory := by
    simp [shorterCalls, SessionCall.OfHistory]
  exact (captured_history (s := freshSession) rfl hcalls hread (List.prefix_refl _)).2.2.1

end Cxdb
