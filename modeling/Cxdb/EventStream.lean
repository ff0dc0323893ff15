import Cxdb.Clients
import Cxdb.LineReader
import Cxdb.ServerEvents
import Mathlib.Data.List.DropRight

/-!
# Reading the Event Stream

`read_event_stream` of `subscribe.rs` and `readEventStream` of `subscribe.go`. Both take the
body of the response line by line: a line is a field of the next event, a comment, or the
empty line that ends the event. The Rust client reads a line as text, so it stops at one
that is not UTF-8.

## Main results

* `ReaderState.foldlM_message`: a reader takes the lines of a message for one event.
* `event_stream_roundtrip`: both clients get back the events that the server wrote, however
  the stream is cut into reads.
-/

open ByteFormat LineReader JsonText

namespace Cxdb

/-! ### The readers -/

/-- `Event` of the clients. -/
structure Event where
  eventType : Bytes
  data : Bytes
  id : Bytes
  deriving DecidableEq

/-- How a reader ends. -/
inductive SubscribeError where
  | eof
  | read (msg : String)
  | malformedField (field : Bytes)
  | tooLarge (size : ℕ)
  deriving DecidableEq

/-- The local variables of the reader, and the events that it has emitted. -/
structure ReaderState where
  eventType : Bytes
  dataLines : List Bytes
  lastId : Bytes
  dataSize : ℕ
  emitted : List Event

/-- A reader between two events. -/
def ReaderState.between (emitted : List Event) : ReaderState := ⟨[], [], [], 0, emitted⟩

/-- `flush_event`. -/
def ReaderState.flushEvent (st : ReaderState) : ReaderState :=
  let data := List.intercalate [10] st.dataLines
  if (st.dataLines = [] ∧ st.eventType = [] ∧ st.lastId = []) ∨ data = [] then
    .between st.emitted
  else
    let eventType := if st.eventType = [] then utf8Bytes "message" else st.eventType
    .between (st.emitted ++ [⟨eventType, data, st.lastId⟩])

/-- The line without the line breaks at its end. -/
def trimLine (line : Bytes) : Bytes := line.rdropWhile fun b => b = 13 ∨ b = 10

/-- `split_once(':')`, with an empty value where there is no colon. -/
def splitField (line : Bytes) : Bytes × Bytes :=
  (line.takeWhile (· ≠ 58), (line.dropWhile (· ≠ 58)).tail)

/-- `strip_prefix(' ')`. -/
def stripSpace : Bytes → Bytes
  | 32 :: value => value
  | value => value

/-- A line that is neither empty nor a comment. -/
def ReaderState.readField (maxEventBytes : ℕ) (st : ReaderState) (line : Bytes) :
    Except SubscribeError ReaderState :=
  let field := (splitField line).1
  let value := stripSpace (splitField line).2
  if field = [] ∨ 32 ∈ field ∨ 9 ∈ field then .error (.malformedField field)
  else if field = utf8Bytes "event" then .ok { st with eventType := value }
  else if field = utf8Bytes "data" then
    let size := st.dataSize + value.length
    if 0 < maxEventBytes ∧ maxEventBytes < size then .error (.tooLarge size)
    else .ok { st with dataLines := st.dataLines ++ [value], dataSize := size }
  else if field = utf8Bytes "id" then .ok { st with lastId := value }
  else .ok st

/-- What `read_line` refuses. -/
def refusesLine (lib : ClientLib) (line : Bytes) : Bool :=
  match lib with
  | .rust => (fromUtf8 line).isNone
  | .go => false

/-- The body of the loop, for a line; the error comes with the events emitted before. -/
def ReaderState.readLine (lib : ClientLib) (maxEventBytes : ℕ) (st : ReaderState)
    (line : Bytes) : Except (List Event × SubscribeError) ReaderState :=
  if refusesLine lib line then
    .error (st.emitted, .read "stream did not contain valid UTF-8")
  else
    let content := trimLine line
    if content = [] then .ok st.flushEvent
    else if content.head? = some 58 then .ok st
    else
      match st.readField maxEventBytes content with
      | .error e => .error (st.emitted, e)
      | .ok st' => .ok st'

/-- The end of the stream, or a read that failed with the message: what stands behind the
last line break counts only at the end. -/
def ReaderState.finish (lib : ClientLib) (maxEventBytes : ℕ) (failure : Option String)
    (st : ReaderState) (line : Bytes) : List Event × SubscribeError :=
  match failure with
  | some msg => (st.emitted, .read msg)
  | none =>
      if line = [] then (st.emitted, .eof)
      else
        match st.readLine lib maxEventBytes line with
        | .error e => e
        | .ok st' =>
            if (trimLine line).head? = some 58 then (st'.emitted, .eof)
            else (st'.flushEvent.emitted, .eof)

/-- `read_event_stream` on the reads of a response body: the events emitted, and how the
reader ends. -/
def readEventStream (lib : ClientLib) (maxEventBytes : ℕ) (failure : Option String)
    (reads : List (Piece UInt8)) : List Event × SubscribeError :=
  (Source.ofReads reads).loop 10 (ReaderState.readLine lib maxEventBytes)
    (ReaderState.finish lib maxEventBytes failure) (.between [])

/-! ### The lines of a message -/

/-- The lines of an item, without the line breaks. -/
def StreamItem.lines (item : StreamItem) : List Bytes :=
  match item.content with
  | some (eventType, data) =>
      [utf8Bytes ("event: " ++ eventType), utf8Bytes ("data: " ++ data), []]
  | none => [utf8Bytes ":heartbeat", []]

theorem StreamItem.message_lines (item : StreamItem) :
    utf8Bytes item.message = item.lines.flatMap (· ++ [10]) := by
  rw [StreamItem.message, StreamItem.lines]
  cases item.content with
  | some content =>
      have hdata : utf8Bytes "\ndata: " = 10 :: utf8Bytes "data: " := by decide
      have hend : utf8Bytes "\n\n" = [10, 10] := by decide
      simp [sseMessage, utf8Bytes_append, hdata, hend]
  | none => decide

/-- A printable text has no line breaks. -/
theorem not_mem_utf8Bytes {s : String} (h : Printable s.toList) {b : UInt8} (hb : b < 32) :
    b ∉ utf8Bytes s :=
  fun hmem => absurd (utf8Bytes_printable h b hmem) (UInt8.not_le.mpr hb)

theorem StreamItem.lines_printable (item : StreamItem) :
    ∀ line ∈ item.lines, ∃ s : String, Printable s.toList ∧ line = utf8Bytes s := by
  rw [StreamItem.lines]
  cases h : item.content with
  | some content =>
      obtain ⟨htype, -, hdata, -⟩ := StreamItem.content_printable h
      simp only [List.forall_mem_cons, List.not_mem_nil, false_implies, implies_true, and_true]
      exact ⟨⟨_, printable_append (by decide) htype, rfl⟩,
        ⟨_, printable_append (by decide) hdata, rfl⟩, "", by decide, rfl⟩
  | none =>
      simp only [List.forall_mem_cons, List.not_mem_nil, false_implies, implies_true, and_true]
      exact ⟨⟨":heartbeat", by decide, rfl⟩, "", by decide, rfl⟩

/-! ### Reading a message -/

theorem trimLine_text {s : String} (h : Printable s.toList) :
    trimLine (utf8Bytes s ++ [10]) = utf8Bytes s := by
  rw [trimLine, List.rdropWhile_concat_pos _ _ _ (by decide), List.rdropWhile_eq_self_iff]
  intro hne hbreak
  have hprintable := utf8Bytes_printable h _ (List.getLast_mem hne)
  rw [decide_eq_true_eq] at hbreak
  rcases hbreak with heq | heq <;> (rw [heq] at hprintable; exact absurd hprintable (by decide))

/-- Both readers take a printable line. -/
theorem ReaderState.readLine_text {lib : ClientLib} {maxEventBytes : ℕ} {st : ReaderState}
    {s : String} (h : Printable s.toList) :
    st.readLine lib maxEventBytes (utf8Bytes s ++ [10]) =
      if utf8Bytes s = [] then .ok st.flushEvent
      else if (utf8Bytes s).head? = some 58 then .ok st
      else
        match st.readField maxEventBytes (utf8Bytes s) with
        | .error e => .error (st.emitted, e)
        | .ok st' => .ok st' := by
  have hline : utf8Bytes s ++ [10] = utf8Bytes (s ++ "\n") := by
    rw [utf8Bytes_append]
    rfl
  have htakes : refusesLine lib (utf8Bytes s ++ [10]) = false := by
    cases lib with
    | rust => rw [refusesLine, hline, fromUtf8_utf8Bytes]; rfl
    | go => rfl
  rw [ReaderState.readLine, htakes, trimLine_text h]
  rfl

theorem splitField_append {name : Bytes} (h : 58 ∉ name) (value : Bytes) :
    splitField (name ++ 58 :: value) = (name, value) := by
  have hname : ∀ b ∈ name, decide (b ≠ 58) = true := fun b hb =>
    decide_eq_true fun heq => h (heq ▸ hb)
  rw [splitField, List.takeWhile_append_of_pos hname, List.dropWhile_append_of_pos hname]
  simp

/-- The event that a client should get; a heartbeat is none. -/
def StreamItem.received (item : StreamItem) : Option Event :=
  item.content.map fun content => ⟨utf8Bytes content.1, utf8Bytes content.2, []⟩

/-- The data of the item is within the limit of the reader, if there is one. -/
def StreamItem.Fits (maxEventBytes : ℕ) (item : StreamItem) : Prop :=
  ∀ content ∈ item.content, maxEventBytes = 0 ∨ (utf8Bytes content.2).length ≤ maxEventBytes

theorem utf8Bytes_ne_nil {s : String} (h : s ≠ "") : utf8Bytes s ≠ [] := by
  intro hnil
  have hs := fromUtf8_utf8Bytes s
  rw [hnil] at hs
  exact h (Option.some.inj (hs.symm.trans (fromUtf8_utf8Bytes "")))

variable {lib : ClientLib} {maxEventBytes : ℕ} {st : ReaderState}

/-- The line with the event type. -/
theorem ReaderState.readLine_event {eventType : String} (h : Printable eventType.toList) :
    st.readLine lib maxEventBytes (utf8Bytes ("event: " ++ eventType) ++ [10]) =
      .ok { st with eventType := utf8Bytes eventType } := by
  have hline : utf8Bytes ("event: " ++ eventType) =
      utf8Bytes "event" ++ 58 :: 32 :: utf8Bytes eventType := by
    rw [utf8Bytes_append]
    rfl
  have hfield : splitField (utf8Bytes "event" ++ 58 :: 32 :: utf8Bytes eventType) =
      (utf8Bytes "event", 32 :: utf8Bytes eventType) := splitField_append (by decide) _
  rw [ReaderState.readLine_text (printable_append (by decide) h), hline, if_neg (by simp),
    if_neg (by rw [show utf8Bytes "event" = [101, 118, 101, 110, 116] by decide]; simp),
    ReaderState.readField, hfield]
  dsimp only
  rw [if_neg (by decide), if_pos rfl]
  rfl

/-- The line with the data. -/
theorem ReaderState.readLine_data {data : String} (h : Printable data.toList)
    (hfits : maxEventBytes = 0 ∨ st.dataSize + (utf8Bytes data).length ≤ maxEventBytes) :
    st.readLine lib maxEventBytes (utf8Bytes ("data: " ++ data) ++ [10]) =
      .ok { st with
        dataLines := st.dataLines ++ [utf8Bytes data]
        dataSize := st.dataSize + (utf8Bytes data).length } := by
  have hline : utf8Bytes ("data: " ++ data) =
      utf8Bytes "data" ++ 58 :: 32 :: utf8Bytes data := by
    rw [utf8Bytes_append]
    rfl
  have hfield : splitField (utf8Bytes "data" ++ 58 :: 32 :: utf8Bytes data) =
      (utf8Bytes "data", 32 :: utf8Bytes data) := splitField_append (by decide) _
  rw [ReaderState.readLine_text (printable_append (by decide) h), hline, if_neg (by simp),
    if_neg (by rw [show utf8Bytes "data" = [100, 97, 116, 97] by decide]; simp),
    ReaderState.readField, hfield]
  dsimp only
  rw [if_neg (by decide), if_neg (by decide), if_pos rfl, stripSpace, if_neg (by omega)]

/-- The empty line, or a comment. -/
theorem ReaderState.readLine_empty :
    st.readLine lib maxEventBytes [10] = .ok st.flushEvent :=
  ReaderState.readLine_text (s := "") (by decide)

theorem ReaderState.readLine_heartbeat :
    st.readLine lib maxEventBytes (utf8Bytes ":heartbeat" ++ [10]) = .ok st := by
  rw [ReaderState.readLine_text (by decide)]
  rfl

/-- **A message is read as one event**, and a heartbeat as none. -/
theorem ReaderState.foldlM_message {item : StreamItem} (hfits : item.Fits maxEventBytes)
    (emitted : List Event) :
    (item.lines.map (· ++ [10])).foldlM (ReaderState.readLine lib maxEventBytes)
      (.between emitted) = .ok (.between (emitted ++ item.received.toList)) := by
  rw [StreamItem.lines, StreamItem.received]
  cases h : item.content with
  | none =>
      simp only [List.map_cons, List.map_nil, List.foldlM_cons, List.foldlM_nil,
        ReaderState.readLine_heartbeat, List.nil_append, ReaderState.readLine_empty, bind,
        Except.bind, pure, Except.pure, Option.map_none, Option.toList_none, List.append_nil]
      rfl
  | some content =>
      obtain ⟨htype, htypeNe, hdata, hdataNe⟩ := StreamItem.content_printable h
      have hsize := hfits content h
      simp only [List.map_cons, List.map_nil, List.foldlM_cons, List.foldlM_nil,
        ReaderState.readLine_event htype, bind, Except.bind]
      rw [ReaderState.readLine_data hdata (by simpa [ReaderState.between] using hsize)]
      simp only [List.nil_append, ReaderState.readLine_empty, pure, Except.pure,
        ReaderState.flushEvent, ReaderState.between]
      rw [if_neg (by simp [utf8Bytes_ne_nil hdataNe]), if_neg (utf8Bytes_ne_nil htypeNe)]
      simp

theorem ReaderState.foldlM_items {items : List StreamItem}
    (hfits : ∀ item ∈ items, item.Fits maxEventBytes) (emitted : List Event) :
    ((items.flatMap StreamItem.lines).map (· ++ [10])).foldlM
      (ReaderState.readLine lib maxEventBytes) (.between emitted) =
    .ok (.between (emitted ++ items.filterMap StreamItem.received)) := by
  induction items generalizing emitted with
  | nil => simp [pure, Except.pure]
  | cons item items ih =>
      obtain ⟨hitem, hitems⟩ := List.forall_mem_cons.mp hfits
      rw [List.flatMap_cons, List.map_append, List.foldlM_append,
        ReaderState.foldlM_message hitem]
      change List.foldlM _ _ _ = _
      rw [ih hitems, List.filterMap_cons]
      cases item.received <;> simp

/-- **The event stream.** However the body of the response is cut into reads, both clients
emit the events that the server wrote, each with its type and its data, and end with the
stream; heartbeats leave no trace. -/
theorem event_stream_roundtrip (lib : ClientLib) (maxEventBytes : ℕ) (items : List StreamItem)
    (hfits : ∀ item ∈ items, item.Fits maxEventBytes) (failure : Option String)
    (reads : List (Piece UInt8))
    (hreads : (reads.map Subtype.val).flatten =
      ChunkedBody.dechunk (items.flatMap StreamItem.bytes)) :
    readEventStream lib maxEventBytes failure reads =
      (items.filterMap StreamItem.received,
        match failure with
        | some msg => .read msg
        | none => .eof) := by
  have hbody : (Source.ofReads reads).elements =
      (items.flatMap StreamItem.lines).flatMap (· ++ [10]) ++ [] := by
    rw [Source.elements, Source.ofReads, List.nil_append, hreads, body_of_stream,
      List.append_nil, List.flatMap_assoc]
    exact List.flatMap_congr fun item _ => item.message_lines
  have hlines : ∀ line ∈ items.flatMap StreamItem.lines, 10 ∉ line := by
    intro line hline
    obtain ⟨item, -, hitem⟩ := List.mem_flatMap.mp hline
    obtain ⟨s, hs, rfl⟩ := item.lines_printable line hitem
    exact not_mem_utf8Bytes hs (by decide)
  rw [readEventStream, Source.loop_eq, hbody, splitLines_flatMap hlines]
  simp only [splitLines, List.append_nil, ReaderState.foldlM_items hfits]
  cases failure <;> rfl

instance (item : StreamItem) : Decidable (item.Fits maxEventBytes) :=
  inferInstanceAs (Decidable (∀ content ∈ item.content, _))

/-- A stream with a heartbeat, and with quotes, a line break and a letter that is not ASCII in
the tag of a client. -/
def tagStream : List StreamItem :=
  [.connected, .heartbeat, .event (.clientConnected "7" "\"é\n")]

/-- `event_stream_roundtrip` for a stream that arrives byte by byte. -/
theorem event_stream_roundtrip_tagStream :
    readEventStream .rust 64 none ((tagStream.flatMap fun item => utf8Bytes item.message).map
        fun b => ⟨[b], List.cons_ne_nil _ _⟩) =
      ([⟨utf8Bytes "connected", utf8Bytes "\x7b\x7d", []⟩,
        ⟨utf8Bytes "client_connected",
          utf8Bytes "\x7b\"client_tag\":\"\\\"é\\n\",\"session_id\":\"7\"\x7d", []⟩], .eof) := by
  rw [event_stream_roundtrip .rust 64 tagStream (by decide) none _
    (by rw [body_of_stream, List.map_map, ← List.flatMap_def]; exact List.flatMap_singleton' _)]
  decide

end Cxdb
