import Cxdb.EventStream
import Cxdb.RenderedText
import Cxdb.Utf8Chunks

/-!
# The Readers of the Two Clients

`readEventStream` of `subscribe.go` and `read_event_stream` of `subscribe.rs`, each as its
client has it. The Go reader works on bytes and asks the reader of the body whether it is at its
end; the Rust reader works on text and asks the line whether it ends with a line break.

## Main results

* `Go.readEventStream_eq`: the Go reader is the one that `event_stream_roundtrip` is about.
* `readers_agree`: on a stream of UTF-8 both emit the same events and end alike.
-/

open ByteFormat LineReader RenderedText Utf8Chunks

namespace Cxdb

/-! ### The Go reader -/

namespace Go

/-- `strings.TrimRight(line, "\r\n")`. -/
def trimRight (line : Bytes) : Bytes := line.rdropWhile fun b => b == 13 || b == 10

/-- `strings.Cut(line, ":")`. -/
def cut (line : Bytes) : Bytes × Bytes × Bool :=
  (line.takeWhile (!· == 58), (line.dropWhile (!· == 58)).tail, line.any (· == 58))

/-- `strings.TrimPrefix(value, " ")`. -/
def trimPrefix (value : Bytes) : Bytes :=
  if value.head?.any (· == 32) then value.tail else value

/-- `reset`, which keeps what has been emitted. -/
def reset (st : ReaderState) : ReaderState :=
  { eventType := [], dataLines := [], lastId := [], dataSize := 0, emitted := st.emitted }

/-- `flush`. -/
def flush (st : ReaderState) : ReaderState :=
  if st.dataLines = [] ∧ st.eventType = [] ∧ st.lastId = [] then reset st
  else
    let data := List.intercalate [10] st.dataLines
    if data = [] then reset st
    else
      let eventType := if st.eventType = [] then utf8Bytes "message" else st.eventType
      { reset st with emitted := st.emitted ++ [⟨eventType, data, st.lastId⟩] }

/-- The `switch` over the field. -/
def setField (maxEventBytes : ℤ) (st : ReaderState) (field value : Bytes) :
    Except SubscribeError ReaderState :=
  if field = utf8Bytes "event" then .ok { st with eventType := value }
  else if field = utf8Bytes "data" then
    let dataSize := st.dataSize + value.length
    if 0 < maxEventBytes ∧ maxEventBytes < dataSize then .error (.tooLarge dataSize)
    else .ok { st with dataLines := st.dataLines ++ [value], dataSize }
  else if field = utf8Bytes "id" then .ok { st with lastId := value }
  else .ok st

/-- The body of the loop, for what `ReadString` gives. -/
def readLine (maxEventBytes : ℤ) (eof : Bool) (st : ReaderState) (line : Bytes) :
    Except (List Event × SubscribeError) ReaderState :=
  if line = [] ∧ eof then .error (st.emitted, .eof)
  else
    let line := trimRight line
    if line = [] then
      let st := flush st
      if eof then .error (st.emitted, .eof) else .ok st
    else if line.head?.any (· == 58) then
      if eof then .error (st.emitted, .eof) else .ok st
    else
      let (before, after, found) := cut line
      let (field, value) := if found then (before, after) else (line, [])
      if field = [] ∨ field.any (fun b => b == 32 || b == 9) then
        .error (st.emitted, .malformedField field)
      else
        match setField maxEventBytes st field (trimPrefix value) with
        | .error e => .error (st.emitted, e)
        | .ok st => if eof then .error ((flush st).emitted, .eof) else .ok st

/-- The last line comes with the end of the stream, and the body returns then. -/
def readLastLine (maxEventBytes : ℤ) (st : ReaderState) (line : Bytes) :
    List Event × SubscribeError :=
  match readLine maxEventBytes true st line with
  | .error e => e
  | .ok st => (st.emitted, .eof)

/-- `readEventStream`. -/
def readEventStream (maxEventBytes : ℤ) (reads : List (Piece UInt8)) :
    List Event × SubscribeError :=
  (Source.ofReads reads).loop 10 (readLine maxEventBytes false) (readLastLine maxEventBytes)
    (.between [])

end Go

/-! ### The Rust reader -/

namespace Rust

/-- `Event` of the Rust client; a text is the list of its characters. -/
structure TextEvent where
  eventType : List Char
  data : Bytes
  id : List Char
  deriving DecidableEq

/-- The local variables of `read_event_stream`, and the events that it has emitted. -/
structure TextReader where
  eventType : List Char
  dataLines : List (List Char)
  lastId : List Char
  dataSize : ℕ
  emitted : List TextEvent

/-- `line.trim_end_matches(['\r', '\n'])`. -/
def trimEndMatches (line : List Char) : List Char :=
  line.rdropWhile fun c => c == '\r' || c == '\n'

/-- `line.split_once(':')`. -/
def splitOnce (line : List Char) : Option (List Char × List Char) :=
  if line.any (· == ':') then
    some (line.takeWhile (!· == ':'), (line.dropWhile (!· == ':')).tail)
  else none

/-- `value.strip_prefix(' ').unwrap_or(value)`. -/
def stripPrefix (value : List Char) : List Char :=
  if value.head?.any (· == ' ') then value.tail else value

/-- `reset_state`. -/
def TextReader.resetState (st : TextReader) : TextReader :=
  { eventType := [], dataLines := [], lastId := [], dataSize := 0, emitted := st.emitted }

/-- `flush_event`. -/
def TextReader.flushEvent (st : TextReader) : TextReader :=
  if st.dataLines = [] ∧ st.eventType = [] ∧ st.lastId = [] then st.resetState
  else
    let data := List.intercalate ['\n'] st.dataLines
    if data = [] then st.resetState
    else
      let eventType := if st.eventType = [] then "message".toList else st.eventType
      { st.resetState with emitted := st.emitted ++ [⟨eventType, encode data, st.lastId⟩] }

/-- The `match` over the field; the length of a text is that of its bytes. -/
def TextReader.setField (maxEventBytes : ℕ) (st : TextReader) (field value : List Char) :
    Except SubscribeError TextReader :=
  if field = "event".toList then .ok { st with eventType := value }
  else if field = "data".toList then
    let dataSize := st.dataSize + (encode value).length
    if 0 < maxEventBytes ∧ maxEventBytes < dataSize then .error (.tooLarge dataSize)
    else .ok { st with dataLines := st.dataLines ++ [value], dataSize }
  else if field = "id".toList then .ok { st with lastId := value }
  else .ok st

/-- The body of the loop, for what `read_line` has read. -/
def TextReader.readLine (maxEventBytes : ℕ) (st : TextReader) (bytes : Bytes) :
    Except (List TextEvent × SubscribeError) TextReader :=
  match fromUtf8 bytes with
  | none => .error (st.emitted, .read "stream did not contain valid UTF-8")
  | some text =>
    if bytes.length = 0 then .error (st.emitted, .eof)
    else
      let eof := !text.toList.getLast?.any (· == '\n')
      let line := trimEndMatches text.toList
      if line = [] then
        let st := st.flushEvent
        if eof then .error (st.emitted, .eof) else .ok st
      else if line.head?.any (· == ':') then
        if eof then .error (st.emitted, .eof) else .ok st
      else
        let (field, value) := (splitOnce line).getD (line, [])
        if field = [] ∨ field.any (fun c => c == ' ' || c == '\t') then
          .error (st.emitted, .malformedField (encode field))
        else
          match st.setField maxEventBytes field (stripPrefix value) with
          | .error e => .error (st.emitted, e)
          | .ok st => if eof then .error (st.flushEvent.emitted, .eof) else .ok st

/-- The last line has no line break, and the body returns then. -/
def TextReader.readLastLine (maxEventBytes : ℕ) (st : TextReader) (line : Bytes) :
    List TextEvent × SubscribeError :=
  match st.readLine maxEventBytes line with
  | .error e => e
  | .ok st => (st.emitted, .eof)

/-- `read_event_stream`. -/
def readEventStream (maxEventBytes : ℕ) (reads : List (Piece UInt8)) :
    List TextEvent × SubscribeError :=
  (Source.ofReads reads).loop 10 (TextReader.readLine maxEventBytes)
    (TextReader.readLastLine maxEventBytes) ⟨[], [], [], 0, []⟩

end Rust

/-! ### Characters and bytes -/

/-- A character of ASCII is one byte, which no other character has. -/
theorem marks_ascii {c : Char} {b : UInt8} (hb : b.toNat < 128) (hc : c.val.toNat = b.toNat) :
    Marks (· == c) (· == b) String.utf8EncodeChar where
  pos x hx := by
    obtain rfl := beq_iff_eq.mp hx
    refine ⟨b, ?_, beq_self_eq_true b⟩
    have hle : x.val.toNat ≤ 127 := by omega
    rw [String.utf8EncodeChar, if_pos hle, hc, UInt8.ofNat_toNat]
  neg x hx y hy := by
    have hne : x.val.toNat ≠ b.toNat := fun h =>
      (beq_eq_false_iff_ne.mp hx) (Char.ext (UInt32.toNat_inj.mp (h.trans hc.symm)))
    refine beq_eq_false_iff_ne.mpr ?_
    rintro rfl
    simp only [String.utf8EncodeChar] at hy
    split_ifs at hy
    all_goals
      simp only [List.mem_cons, List.not_mem_nil, or_false] at hy
      rcases hy with rfl | rfl | rfl | rfl
    all_goals
      rw [UInt8.toNat_ofNat'] at hb hne
      omega
  ne_nil x := by
    rw [← List.length_pos_iff, String.length_utf8EncodeChar]
    exact Char.utf8Size_pos x

theorem utf8Bytes_ofList (cs : List Char) : utf8Bytes (String.ofList cs) = encode cs := by
  rw [utf8Bytes_eq, String.toList_ofList]
  rfl

theorem utf8Bytes_eq_encode (s : String) : utf8Bytes s = encode s.toList := utf8Bytes_eq s

theorem encode_inj {cs cs' : List Char} : encode cs = encode cs' ↔ cs = cs' := by
  constructor
  · intro h
    rw [← utf8Bytes_ofList, ← utf8Bytes_ofList] at h
    exact String.ofList_injective (utf8Bytes_injective h)
  · rintro rfl
    rfl

theorem encode_eq_nil {cs : List Char} : encode cs = [] ↔ cs = [] :=
  @encode_inj cs []

/-! ### The state of the Rust reader, in bytes -/

/-- The event as the Go client has it. -/
def Rust.TextEvent.rendered (e : Rust.TextEvent) : Event :=
  ⟨encode e.eventType, e.data, encode e.id⟩

/-- The state with its texts as bytes. -/
def Rust.TextReader.rendered (st : Rust.TextReader) : ReaderState where
  eventType := encode st.eventType
  dataLines := st.dataLines.map encode
  lastId := encode st.lastId
  dataSize := st.dataSize
  emitted := st.emitted.map Rust.TextEvent.rendered

theorem Rust.TextReader.flush_rendered (st : Rust.TextReader) :
    Go.flush st.rendered = st.flushEvent.rendered := by
  have hlines : st.rendered.dataLines = [] ↔ st.dataLines = [] := List.map_eq_nil_iff
  have htype : st.rendered.eventType = [] ↔ st.eventType = [] := encode_eq_nil
  have hid : st.rendered.lastId = [] ↔ st.lastId = [] := encode_eq_nil
  have hdata : List.intercalate [10] st.rendered.dataLines =
      encode (List.intercalate ['\n'] st.dataLines) :=
    (encode_intercalate ['\n'] st.dataLines).symm
  rw [Go.flush, Rust.TextReader.flushEvent]
  simp only [hlines, htype, hid, hdata, encode_eq_nil]
  split_ifs
  · rfl
  · rfl
  · simp [Go.reset, Rust.TextReader.resetState, Rust.TextReader.rendered,
      Rust.TextEvent.rendered, utf8Bytes_eq_encode, encode]
  · simp [Go.reset, Rust.TextReader.resetState, Rust.TextReader.rendered,
      Rust.TextEvent.rendered, encode]

theorem Rust.TextReader.setField_rendered (maxEventBytes : ℕ) (st : Rust.TextReader)
    (field value : List Char) :
    Go.setField maxEventBytes st.rendered (encode field) (encode value) =
      (st.setField maxEventBytes field value).map Rust.TextReader.rendered := by
  rw [Go.setField, Rust.TextReader.setField]
  simp only [utf8Bytes_eq_encode, encode_inj, Rust.TextReader.rendered]
  have hlimit : (0 < (maxEventBytes : ℤ) ∧
      (maxEventBytes : ℤ) < (st.dataSize + (encode value).length : ℕ)) ↔
        0 < maxEventBytes ∧ maxEventBytes < st.dataSize + (encode value).length := by
    omega
  simp only [hlimit]
  split_ifs <;> simp [Except.map, Rust.TextReader.rendered]

/-! ### One line -/

theorem trimRight_encode (line : List Char) :
    Go.trimRight (encode line) = encode (Rust.trimEndMatches line) :=
  ((marks_ascii (c := '\r') (b := 13) (by decide) (by decide)).or
    (marks_ascii (c := '\n') (b := 10) (by decide) (by decide))).rdropWhile line

theorem colon_marks : Marks (· == ':') (· == 58) String.utf8EncodeChar :=
  marks_ascii (by decide) (by decide)

/-- The field of a line, and its value. -/
theorem cut_encode (line : List Char) :
    (if (Go.cut (encode line)).2.2 then ((Go.cut (encode line)).1, (Go.cut (encode line)).2.1)
      else (encode line, [])) =
      (encode ((Rust.splitOnce line).getD (line, [])).1,
        encode ((Rust.splitOnce line).getD (line, [])).2) := by
  have hany : (Go.cut (encode line)).2.2 = line.any (· == ':') := colon_marks.any line
  rw [hany, Rust.splitOnce]
  by_cases hcolon : line.any (· == ':') = true
  · have hbefore : (Go.cut (encode line)).1 = encode (line.takeWhile (!· == ':')) :=
      colon_marks.takeWhile line
    have hafter : (Go.cut (encode line)).2.1 = encode (line.dropWhile (!· == ':')).tail := by
      rw [Go.cut, encode, colon_marks.dropWhile]
      refine colon_marks.tail ?_
      obtain ⟨c, hc, hcolon⟩ := List.any_eq_true.mp hcolon
      have hne : line.dropWhile (!· == ':') ≠ [] := fun hnil => by
        have := List.dropWhile_eq_nil_iff.mp hnil c hc
        rw [hcolon] at this
        cases this
      have hhead := List.head_dropWhile_not (fun c => !c == ':') hne
      rw [List.head?_eq_some_head hne]
      simpa using hhead
    rw [if_pos hcolon, if_pos hcolon, hbefore, hafter]
    rfl
  · rw [if_neg hcolon, if_neg hcolon]
    rfl

theorem trimPrefix_encode (value : List Char) :
    Go.trimPrefix (encode value) = encode (Rust.stripPrefix value) := by
  have hspace : Marks (· == ' ') (· == 32) String.utf8EncodeChar :=
    marks_ascii (by decide) (by decide)
  rw [Go.trimPrefix, Rust.stripPrefix, encode, hspace.head]
  split
  next hhead => exact hspace.tail hhead
  next => rfl

theorem blank_encode (field : List Char) :
    (encode field).any (fun b => b == 32 || b == 9) =
      field.any (fun c => c == ' ' || c == '\t') :=
  ((marks_ascii (c := ' ') (b := 32) (by decide) (by decide)).or
    (marks_ascii (c := '\t') (b := 9) (by decide) (by decide))).any field

/-- What the body of the loop comes to, in bytes. -/
def Rust.rendered : Except (List Rust.TextEvent × SubscribeError) Rust.TextReader →
    Except (List Event × SubscribeError) ReaderState
  | .error (emitted, e) => .error (emitted.map Rust.TextEvent.rendered, e)
  | .ok st => .ok st.rendered

/-- **Both readers make the same of a line.** -/
theorem Rust.TextReader.readLine_rendered (maxEventBytes : ℕ) (st : Rust.TextReader)
    (line : List Char) :
    Go.readLine maxEventBytes (!line.getLast?.any (· == '\n')) st.rendered (encode line) =
      Rust.rendered (st.readLine maxEventBytes (encode line)) := by
  have hutf8 : fromUtf8 (encode line) = some (String.ofList line) := by
    rw [← utf8Bytes_ofList, fromUtf8_utf8Bytes]
  rw [Rust.TextReader.readLine, hutf8, Go.readLine]
  dsimp only
  have hhead : ∀ t, (encode t).head?.any (· == 58) = t.head?.any (· == ':') := colon_marks.head
  have hend : (line = [] ∧ (!line.getLast?.any (· == '\n')) = true) ↔ line = [] := by
    constructor
    · exact And.left
    · rintro rfl
      exact ⟨rfl, rfl⟩
  simp only [String.toList_ofList, List.length_eq_zero_iff, encode_eq_nil, hend,
    trimRight_encode, hhead, cut_encode, trimPrefix_encode, blank_encode,
    Rust.TextReader.setField_rendered, Rust.TextReader.flush_rendered]
  generalize (!line.getLast?.any (· == '\n')) = eof
  generalize Rust.trimEndMatches line = content
  generalize (Rust.splitOnce content).getD (content, []) = cut
  by_cases hline : line = []
  · rw [if_pos hline, if_pos hline]
    rfl
  rw [if_neg hline, if_neg hline]
  by_cases hcontent : content = []
  · rw [if_pos hcontent, if_pos hcontent]
    cases eof <;> rfl
  rw [if_neg hcontent, if_neg hcontent]
  by_cases hcomment : content.head?.any (· == ':') = true
  · rw [if_pos hcomment, if_pos hcomment]
    cases eof <;> rfl
  rw [if_neg hcomment, if_neg hcomment]
  by_cases hfield : cut.1 = [] ∨ cut.1.any (fun c => c == ' ' || c == '\t') = true
  · rw [if_pos hfield, if_pos hfield]
    rfl
  rw [if_neg hfield, if_neg hfield]
  cases st.setField maxEventBytes cut.1 (Rust.stripPrefix cut.2) with
  | error e => rfl
  | ok st' =>
      cases eof with
      | true =>
          change Except.error ((Go.flush st'.rendered).emitted, SubscribeError.eof) = _
          rw [Rust.TextReader.flush_rendered]
          rfl
      | false => rfl

theorem Rust.TextReader.foldlM_rendered (maxEventBytes : ℕ) {lines : List (List Char)}
    (hlines : ∀ line ∈ lines, line.getLast? = some '\n') (st : Rust.TextReader) :
    (lines.map encode).foldlM (Go.readLine maxEventBytes false) st.rendered =
      Rust.rendered ((lines.map encode).foldlM (Rust.TextReader.readLine maxEventBytes) st) := by
  induction lines generalizing st with
  | nil => rfl
  | cons line lines ih =>
      obtain ⟨hline, hlines⟩ := List.forall_mem_cons.mp hlines
      have hread := st.readLine_rendered maxEventBytes line
      rw [hline] at hread
      rw [List.map_cons, List.foldlM_cons, List.foldlM_cons,
        show Go.readLine maxEventBytes false st.rendered (encode line) = _ from hread]
      cases st.readLine maxEventBytes (encode line) with
      | error e => rfl
      | ok st' => exact ih hlines st'

/-- **The readers agree.** On a stream of UTF-8, however it is cut into reads for each of them,
the two readers emit the same events and end in the same way. -/
theorem readers_agree (s : String) (maxEventBytes : ℕ) (goReads rustReads : List (Piece UInt8))
    (hgo : (goReads.map Subtype.val).flatten = utf8Bytes s)
    (hrust : (rustReads.map Subtype.val).flatten = utf8Bytes s) :
    Go.readEventStream maxEventBytes goReads =
      ((Rust.readEventStream maxEventBytes rustReads).1.map Rust.TextEvent.rendered,
        (Rust.readEventStream maxEventBytes rustReads).2) := by
  have hbreak : Marks (· == '\n') (· == 10) String.utf8EncodeChar :=
    marks_ascii (by decide) (by decide)
  have helements : ∀ reads : List (Piece UInt8), (reads.map Subtype.val).flatten = utf8Bytes s →
      splitLines 10 (Source.ofReads reads).elements =
        ((splitLines '\n' s.toList).1.map encode, encode (splitLines '\n' s.toList).2) := by
    intro reads hreads
    rw [Source.elements, Source.ofReads, List.nil_append, hreads, utf8Bytes_eq,
      splitLines_flatMap_marks hbreak]
    rfl
  obtain ⟨hlines, hrest⟩ := splitLines_ends '\n' s.toList
  rw [Go.readEventStream, Rust.readEventStream, Source.loop_eq, Source.loop_eq,
    helements _ hgo, helements _ hrust]
  have hfold := Rust.TextReader.foldlM_rendered maxEventBytes hlines ⟨[], [], [], 0, []⟩
  rw [show ReaderState.between [] = Rust.TextReader.rendered ⟨[], [], [], 0, []⟩ from rfl]
  dsimp only
  rw [hfold]
  cases ((splitLines '\n' s.toList).1.map encode).foldlM (Rust.TextReader.readLine maxEventBytes)
    ⟨[], [], [], 0, []⟩ with
  | error e => rfl
  | ok st =>
      have hlast := st.readLine_rendered maxEventBytes (splitLines '\n' s.toList).2
      have heof : (splitLines '\n' s.toList).2.getLast?.any (· == '\n') = false := by
        cases hl : (splitLines '\n' s.toList).2.getLast? with
        | none => rfl
        | some c =>
            have hmem := List.mem_of_getLast? hl
            exact beq_eq_false_iff_ne.mpr fun h => hrest (h ▸ hmem)
      rw [heof] at hlast
      dsimp only [Rust.rendered]
      rw [Go.readLastLine, Rust.TextReader.readLastLine, show Go.readLine maxEventBytes true
        st.rendered (encode (splitLines '\n' s.toList).2) = _ from hlast]
      cases st.readLine maxEventBytes (encode (splitLines '\n' s.toList).2) with
      | error e => rfl
      | ok st' => rfl

/-- Two reads of a stream with a comment, CRLF, data on two lines, and no blank line at the
end. -/
def commentedReads : List (Piece UInt8) :=
  [⟨utf8Bytes ":c\r\nevent: é\r\ndata: 1\r", by decide⟩, ⟨utf8Bytes "\ndata:2", by decide⟩]

/-- `readers_agree` for a stream that the Go reader gets in two reads and the Rust reader byte by
byte. -/
theorem readers_agree_commented :
    Go.readEventStream 3 commentedReads =
        ([⟨utf8Bytes "é", utf8Bytes "1\n2", []⟩], .eof) ∧
      Rust.readEventStream 3 ((commentedReads.flatMap Subtype.val).map
          fun b => ⟨[b], List.cons_ne_nil _ _⟩) =
        ([⟨['é'], utf8Bytes "1\n2", []⟩], .eof) := by
  have hrust : Rust.readEventStream 3 ((commentedReads.flatMap Subtype.val).map
      fun b => ⟨[b], List.cons_ne_nil _ _⟩) = ([⟨['é'], utf8Bytes "1\n2", []⟩], .eof) := by
    decide +kernel
  have hagree := readers_agree ":c\r\nevent: é\r\ndata: 1\r\ndata:2" 3 commentedReads
    ((commentedReads.flatMap Subtype.val).map fun b => ⟨[b], List.cons_ne_nil _ _⟩)
    (by decide) (by decide)
  rw [hrust] at hagree
  exact ⟨hagree, hrust⟩

/-! ### The reader of the round trip -/

theorem Go.flush_eq (st : ReaderState) : Go.flush st = st.flushEvent := by
  rw [Go.flush, ReaderState.flushEvent]
  by_cases hempty : st.dataLines = [] ∧ st.eventType = [] ∧ st.lastId = []
  · rw [if_pos hempty, if_pos (Or.inl hempty)]
    rfl
  rw [if_neg hempty]
  by_cases hdata : List.intercalate [10] st.dataLines = []
  · rw [if_pos hdata, if_pos (Or.inr hdata)]
    rfl
  · rw [if_neg hdata, if_neg (not_or.mpr ⟨hempty, hdata⟩)]
    rfl

theorem Go.setField_eq (maxEventBytes : ℤ) (st : ReaderState) (line : Bytes) :
    st.readField maxEventBytes.toNat line =
      if (splitField line).1 = [] ∨ (splitField line).1.any (fun b => b == 32 || b == 9) then
        .error (.malformedField (splitField line).1)
      else Go.setField maxEventBytes st (splitField line).1 (stripSpace (splitField line).2) := by
  have hblank : (32 ∈ (splitField line).1 ∨ 9 ∈ (splitField line).1) ↔
      (splitField line).1.any (fun b => b == 32 || b == 9) = true := by
    simp only [List.any_eq_true, Bool.or_eq_true, beq_iff_eq]
    constructor
    · rintro (h | h)
      · exact ⟨32, h, Or.inl rfl⟩
      · exact ⟨9, h, Or.inr rfl⟩
    · rintro ⟨b, hb, rfl | rfl⟩
      · exact Or.inl hb
      · exact Or.inr hb
  have hlimit : ∀ n : ℕ, (0 < maxEventBytes.toNat ∧ maxEventBytes.toNat < n) ↔
      (0 < maxEventBytes ∧ maxEventBytes < n) := fun n => by omega
  rw [ReaderState.readField, Go.setField]
  simp only [hblank, hlimit]

theorem Go.cut_eq (line : Bytes) :
    (if (Go.cut line).2.2 then ((Go.cut line).1, (Go.cut line).2.1) else (line, [])) =
      splitField line := by
  have hne : (fun b : UInt8 => decide (b ≠ 58)) = (!· == 58) := by
    funext b
    by_cases h : b = 58 <;> simp [h]
  rw [splitField, hne]
  by_cases hcolon : line.any (· == 58) = true
  · exact if_pos hcolon
  · rw [if_neg (show ¬(Go.cut line).2.2 = true from hcolon)]
    have hall : ∀ b ∈ line, (!b == 58) = true := by
      intro b hb
      by_contra hb'
      exact hcolon (List.any_eq_true.mpr ⟨b, hb, by simpa using hb'⟩)
    rw [List.takeWhile_eq_self_iff.mpr hall, List.dropWhile_eq_nil_iff.mpr hall]
    rfl

theorem Go.trimPrefix_eq (value : Bytes) : Go.trimPrefix value = stripSpace value := by
  cases value with
  | nil => rfl
  | cons b value =>
      by_cases h : b = 32
      · subst h
        rfl
      · have hne : ∀ v, b :: value ≠ 32 :: v := fun v heq => h (List.cons.inj heq).1
        rw [stripSpace.eq_2 _ fun v heq => hne v heq]
        simp [Go.trimPrefix, h]

/-- The body of the loop, where it goes on and at the end of the stream. -/
theorem Go.readLine_eq (maxEventBytes : ℤ) (eof : Bool) (st : ReaderState) {line : Bytes}
    (h : ¬(line = [] ∧ eof = true)) :
    Go.readLine maxEventBytes eof st line =
      match st.readLine .go maxEventBytes.toNat line with
      | .error e => .error e
      | .ok st' =>
          if eof then
            if (trimLine line).head? = some 58 then .error (st'.emitted, .eof)
            else .error (st'.flushEvent.emitted, .eof)
          else .ok st' := by
  have htrim : Go.trimRight line = trimLine line := by
    rw [Go.trimRight, trimLine]
    congr 1
    funext b
    simp [beq_eq_decide]
  have hflushed : st.flushEvent.flushEvent = st.flushEvent := by
    have hbetween : ∃ emitted, st.flushEvent = .between emitted := by
      rw [ReaderState.flushEvent]
      dsimp only
      split
      · exact ⟨_, rfl⟩
      · exact ⟨_, rfl⟩
    obtain ⟨emitted, hbetween⟩ := hbetween
    rw [hbetween]
    rfl
  rw [Go.readLine, if_neg h, ReaderState.readLine, refusesLine]
  dsimp only
  rw [htrim, Go.cut_eq, Go.flush_eq, if_neg Bool.false_ne_true]
  by_cases hcontent : trimLine line = []
  · rw [if_pos hcontent, if_pos hcontent, hcontent]
    cases eof with
    | true => simp [hflushed]
    | false => rfl
  rw [if_neg hcontent, if_neg hcontent]
  have hhead : ((trimLine line).head?.any (· == 58) = true) ↔ (trimLine line).head? = some 58 := by
    cases (trimLine line).head? <;> simp
  by_cases hcomment : (trimLine line).head? = some 58
  · rw [if_pos (hhead.mpr hcomment), if_pos hcomment]
    dsimp only
    rw [if_pos hcomment]
  rw [if_neg (mt hhead.mp hcomment), if_neg hcomment, Go.setField_eq, Go.trimPrefix_eq]
  by_cases hfield : (splitField (trimLine line)).1 = [] ∨
      (splitField (trimLine line)).1.any (fun b => b == 32 || b == 9) = true
  · rw [if_pos hfield, if_pos hfield]
  rw [if_neg hfield, if_neg hfield]
  cases Go.setField maxEventBytes st (splitField (trimLine line)).1
    (stripSpace (splitField (trimLine line)).2) with
  | error e => rfl
  | ok st' =>
      dsimp only
      rw [if_neg hcomment, Go.flush_eq]

/-- **The Go reader** is the one of the round trip. -/
theorem Go.readEventStream_eq (maxEventBytes : ℤ) (reads : List (Piece UInt8)) :
    Go.readEventStream maxEventBytes reads =
      Cxdb.readEventStream .go maxEventBytes.toNat none reads := by
  have hstep : Go.readLine maxEventBytes false = ReaderState.readLine .go maxEventBytes.toNat := by
    funext st line
    rw [Go.readLine_eq maxEventBytes false st (by simp)]
    cases st.readLine .go maxEventBytes.toNat line <;> rfl
  have hlast : Go.readLastLine maxEventBytes =
      ReaderState.finish .go maxEventBytes.toNat none := by
    funext st line
    rw [ReaderState.finish, Go.readLastLine]
    by_cases hline : line = []
    · rw [if_pos hline, Go.readLine, if_pos ⟨hline, rfl⟩]
    · rw [if_neg hline, Go.readLine_eq maxEventBytes true st (fun h => hline h.1)]
      cases st.readLine .go maxEventBytes.toNat line with
      | error e => rfl
      | ok st' =>
          dsimp only
          by_cases hcomment : (trimLine line).head? = some 58
          · rw [if_pos rfl, if_pos hcomment, if_pos hcomment]
          · rw [if_pos rfl, if_neg hcomment, if_neg hcomment]
  rw [Go.readEventStream, hstep, hlast]
  rfl

end Cxdb
