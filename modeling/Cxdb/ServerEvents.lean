import Cxdb.ChunkedBody
import Cxdb.DataDir
import Cxdb.JsonText

/-!
# The Event Stream of the Server

The events of `events.rs`, the JSON that `to_sse` makes of them, and the chunks that
`write_sse_event` and `write_sse_heartbeat` of `http/mod.rs` write.

## Main results

* `PublishedEvent.data_printable`: the data of an event stands on one line, in braces.
* `body_of_stream`: what a client sees behind the chunks.
-/

open ByteFormat JsonText

namespace Cxdb

/-! ### Events -/

/-- `StoreEvent` of `events.rs`, with the texts that are sent. -/
inductive PublishedEvent where
  | contextCreated (contextId sessionId clientTag : String) (createdAt : UInt64)
  | contextMetadataUpdated (contextId : String) (clientTag title : Option String)
      (labels : Option (List String)) (hasProvenance : Bool)
  | contextLinked (childContextId parentContextId : String)
      (rootContextId spawnReason : Option String)
  | turnAppended (contextId turnId parentTurnId : String) (depth : UInt32)
      (declaredTypeId : Option String) (declaredTypeVersion : Option UInt32)
  | clientConnected (sessionId clientTag : String)
  | clientDisconnected (sessionId clientTag : String) (contexts : List String)
  | errorOccurred (timestampMs : UInt64) (kind : String) (statusCode : UInt16)
      (message : String) (path : Option String)

/-- The event type of `to_sse`. -/
def PublishedEvent.eventType : PublishedEvent → String
  | .contextCreated .. => "context_created"
  | .contextMetadataUpdated .. => "context_metadata_updated"
  | .contextLinked .. => "context_linked"
  | .turnAppended .. => "turn_appended"
  | .clientConnected .. => "client_connected"
  | .clientDisconnected .. => "client_disconnected"
  | .errorOccurred .. => "error_occurred"

/-- A field that is there only when it has a value. -/
def optionalField {α : Type} (key : String) (f : α → Value) (a : Option α) :
    List (String × Value) :=
  (a.map fun a => (key, f a)).toList

def stringsValue (ss : List String) : Value := .array (ss.map .string)

/-- The fields of the JSON data, in the order in which `to_sse` sets them. -/
def PublishedEvent.fields : PublishedEvent → List (String × Value)
  | .contextCreated contextId sessionId clientTag createdAt =>
      [("context_id", .string contextId), ("session_id", .string sessionId),
        ("client_tag", .string clientTag), ("created_at", .number createdAt.toNat)]
  | .contextMetadataUpdated contextId clientTag title labels hasProvenance =>
      [("context_id", .string contextId), ("has_provenance", .bool hasProvenance)] ++
        optionalField "client_tag" .string clientTag ++ optionalField "title" .string title ++
        optionalField "labels" stringsValue labels
  | .contextLinked childContextId parentContextId rootContextId spawnReason =>
      [("child_context_id", .string childContextId),
        ("parent_context_id", .string parentContextId)] ++
        optionalField "root_context_id" .string rootContextId ++
        optionalField "spawn_reason" .string spawnReason
  | .turnAppended contextId turnId parentTurnId depth declaredTypeId declaredTypeVersion =>
      [("context_id", .string contextId), ("turn_id", .string turnId),
        ("parent_turn_id", .string parentTurnId), ("depth", .number depth.toNat)] ++
        optionalField "declared_type_id" .string declaredTypeId ++
        optionalField "declared_type_version" (fun v => .number v.toNat) declaredTypeVersion
  | .clientConnected sessionId clientTag =>
      [("session_id", .string sessionId), ("client_tag", .string clientTag)]
  | .clientDisconnected sessionId clientTag contexts =>
      [("session_id", .string sessionId), ("client_tag", .string clientTag),
        ("contexts", stringsValue contexts)]
  | .errorOccurred timestampMs kind statusCode message path =>
      [("timestamp_ms", .number timestampMs.toNat), ("kind", .string kind),
        ("status_code", .number statusCode.toNat), ("message", .string message)] ++
        optionalField "path" .string path

/-- `to_sse`: the event type and the JSON data. -/
def PublishedEvent.toSse (e : PublishedEvent) : String × String :=
  (e.eventType, String.ofList (Value.ofFields e.fields).text)

example : (PublishedEvent.clientConnected "7" "a\"\n").toSse.2 =
    "\x7b\"client_tag\":\"a\\\"\\n\",\"session_id\":\"7\"\x7d" := by decide

/-! ### The stream -/

/-- What the server writes to a subscriber: the greeting, events and heartbeats. -/
inductive StreamItem where
  | connected
  | event (e : PublishedEvent)
  | heartbeat

/-- The event type and data of an item; a heartbeat is a comment. -/
def StreamItem.content : StreamItem → Option (String × String)
  | .connected => some ("connected", "\x7b\x7d")
  | .event e => some e.toSse
  | .heartbeat => none

/-- The message of `write_sse_event`. -/
def sseMessage (eventType data : String) : String :=
  "event: " ++ eventType ++ "\ndata: " ++ data ++ "\n\n"

/-- The message of `write_sse_heartbeat`. -/
def sseHeartbeat : String := ":heartbeat\n\n"

def StreamItem.message (item : StreamItem) : String :=
  match item.content with
  | some (eventType, data) => sseMessage eventType data
  | none => sseHeartbeat

/-- The bytes on the wire. -/
def StreamItem.bytes (item : StreamItem) : Bytes := ChunkedBody.chunk (utf8Bytes item.message)

/-! ### Texts as bytes -/

/-- No byte of a printable character is a control character. -/
theorem utf8EncodeChar_printable {c : Char} (hc : ' ' ≤ c) :
    ∀ b ∈ String.utf8EncodeChar c, 32 ≤ b := by
  intro b hb
  have hval : 32 ≤ c.val.toNat := UInt32.le_iff_toNat_le.mp hc
  rw [UInt8.le_iff_toNat_le, show (32 : UInt8).toNat = 32 from rfl]
  simp only [String.utf8EncodeChar] at hb
  split_ifs at hb
  all_goals
    simp only [List.mem_cons, List.not_mem_nil, or_false] at hb
    rcases hb with rfl | rfl | rfl | rfl
  all_goals
    rw [UInt8.toNat_ofNat']
    omega

theorem utf8Bytes_printable {s : String} (h : Printable s.toList) :
    ∀ b ∈ utf8Bytes s, 32 ≤ b := by
  intro b hb
  rw [utf8Bytes_eq] at hb
  obtain ⟨c, hc, hbc⟩ := List.mem_flatMap.mp hb
  exact utf8EncodeChar_printable (h c hc) b hbc

theorem PublishedEvent.data_printable (e : PublishedEvent) : Printable e.toSse.2.toList := by
  rw [PublishedEvent.toSse, String.toList_ofList]
  exact Value.text_printable _

theorem PublishedEvent.eventType_printable (e : PublishedEvent) : Printable e.eventType.toList := by
  cases e <;> (rw [PublishedEvent.eventType]; decide)

/-- The type and the data of an item have no line breaks, and neither is empty. -/
theorem StreamItem.content_printable {item : StreamItem} {eventType data : String}
    (h : item.content = some (eventType, data)) :
    Printable eventType.toList ∧ eventType ≠ "" ∧ Printable data.toList ∧ data ≠ "" := by
  cases item with
  | connected =>
      obtain ⟨rfl, rfl⟩ := Prod.mk.inj (Option.some.inj h)
      exact ⟨by decide, by decide, by decide, by decide⟩
  | heartbeat => cases h
  | event e =>
      obtain ⟨rfl, rfl⟩ := Prod.mk.inj (Option.some.inj h)
      refine ⟨e.eventType_printable, ?_, e.data_printable, fun hnil => ?_⟩
      · cases e <;> (rw [PublishedEvent.eventType]; decide)
      · have hlist := congrArg String.toList hnil
        rw [String.toList_ofList, Value.ofFields, Value.text_object] at hlist
        cases hlist

theorem StreamItem.message_ne_nil (item : StreamItem) : utf8Bytes item.message ≠ [] := by
  rw [StreamItem.message]
  split
  · rw [sseMessage, utf8Bytes_append]
    exact List.append_ne_nil_of_right_ne_nil _ (by decide)
  · decide

/-- **What a client sees behind the chunks**: the messages of the stream. -/
theorem body_of_stream (items : List StreamItem) :
    ChunkedBody.dechunk (items.flatMap StreamItem.bytes) =
      items.flatMap fun item => utf8Bytes item.message := by
  have hmessages : items.flatMap StreamItem.bytes =
      (items.map fun item => utf8Bytes item.message).flatMap ChunkedBody.chunk := by
    rw [List.flatMap_map]
    rfl
  rw [hmessages, ChunkedBody.dechunk_chunks, ← List.flatMap_def]
  intro m hm
  obtain ⟨item, -, rfl⟩ := List.mem_map.mp hm
  exact item.message_ne_nil

end Cxdb
