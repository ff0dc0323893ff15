import Cxdb.OpenAi

/-!
# Streamed and Complete Responses

The accumulator of the OpenAI provider gathers one text and a list of tool calls, from the chunks
of a chat or from the events of Responses. Tool calls of a chat have their places by index, those
of Responses by identifier, and the texts of Responses follow one another without the line breaks
that a complete response gets between them.

## Main results

* `ChatStreams.absorbAll`: the accumulator after the chunks of a message.
* `ResponsesStreams.absorbAll`: the accumulator after the events of a response.
* `openai_stream_eq_iff`: when the two turns are the same.
* `streamed_parts_differ`: two parts of a text.
-/

open TextPieces

namespace Cxdb

namespace OpenAi

variable (serde : SerdeJson)

/-- The exchange after the frames of a stream. -/
def OpenAiExchange.absorbAll (exchange : OpenAiExchange) (frames : List SseFrame) :
    OpenAiExchange :=
  frames.foldl (·.absorbSseFrame serde) exchange

/-! ### Chunks -/

/-- The frame is one of a chat. -/
def IsChunk (frame : SseFrame) : Prop :=
  trim frame.data = "[DONE]" ∨
    ∃ payload, serde.fromStr frame.data = .ok payload ∧ strOf (payload.get "type") = none

/-- What the first choice of a frame adds. -/
def frameDelta (frame : SseFrame) : Option JsonValue :=
  if trim frame.data = "[DONE]" then none
  else
    match serde.fromStr frame.data with
    | .error _ => none
    | .ok payload => (firstChoice payload).bind (·.get "delta")

def contentPiece (delta : JsonValue) : String :=
  ((delta.get "content").map (contentToText serde)).getD ""

/-- The deltas of tool calls, in all frames. -/
def callDeltas (frames : List SseFrame) : List JsonValue :=
  (frames.filterMap (frameDelta serde)).flatMap fun delta =>
    (delta.arrayField "tool_calls").getD []

/-- The pieces of the content, in all frames. -/
def contentPieces (frames : List SseFrame) : List String :=
  (frames.filterMap (frameDelta serde)).map (contentPiece serde)

variable {serde}

theorem absorb_chunk {frame : SseFrame} (h : IsChunk serde frame) (exchange : OpenAiExchange) :
    (exchange.absorbSseFrame serde frame).content =
        exchange.content ++ concat (contentPieces serde [frame]) ∧
      (exchange.absorbSseFrame serde frame).toolCalls =
        (callDeltas serde [frame]).foldl (absorbToolCallDelta serde) exchange.toolCalls ∧
      (exchange.absorbSseFrame serde frame).parseErrors = exchange.parseErrors := by
  rw [OpenAiExchange.absorbSseFrame, contentPieces, callDeltas, List.filterMap_cons,
    List.filterMap_nil, frameDelta]
  by_cases hdone : trim frame.data = "[DONE]"
  · simp [hdone, concat]
  · obtain hdone' | ⟨payload, hpayload, htype⟩ := h
    · exact absurd hdone' hdone
    · simp only [if_neg hdone, hpayload, htype, OpenAiExchange.absorbChunk]
      cases firstChoice payload with
      | none => simp [concat]
      | some choice =>
          cases hdelta : choice.get "delta" with
          | none => simp [concat, hdelta]
          | some delta => simp [concat, hdelta, OpenAiExchange.absorbDelta, contentPiece]

/-- **The accumulator after the chunks of a chat.** -/
theorem absorbAll_chunks {frames : List SseFrame} (h : ∀ frame ∈ frames, IsChunk serde frame)
    (exchange : OpenAiExchange) :
    (exchange.absorbAll serde frames).content =
        exchange.content ++ concat (contentPieces serde frames) ∧
      (exchange.absorbAll serde frames).toolCalls =
        (callDeltas serde frames).foldl (absorbToolCallDelta serde) exchange.toolCalls ∧
      (exchange.absorbAll serde frames).parseErrors = exchange.parseErrors := by
  induction frames generalizing exchange with
  | nil => simp [OpenAiExchange.absorbAll, contentPieces, callDeltas, concat]
  | cons frame frames ih =>
      have hpieces : contentPieces serde (frame :: frames) =
          contentPieces serde [frame] ++ contentPieces serde frames := by
        rw [contentPieces, contentPieces, contentPieces, ← List.map_append,
          ← List.filterMap_append, List.singleton_append]
      have hdeltas : callDeltas serde (frame :: frames) =
          callDeltas serde [frame] ++ callDeltas serde frames := by
        rw [callDeltas, callDeltas, callDeltas, ← List.flatMap_append, ← List.filterMap_append,
          List.singleton_append]
      obtain ⟨hcontent, hcalls, herrors⟩ := absorb_chunk (h frame List.mem_cons_self) exchange
      obtain ⟨ihcontent, ihcalls, iherrors⟩ :=
        ih (fun f hf => h f (List.mem_cons_of_mem _ hf)) (exchange.absorbSseFrame serde frame)
      rw [OpenAiExchange.absorbAll, List.foldl_cons, ← OpenAiExchange.absorbAll, ihcontent,
        ihcalls, iherrors, hcontent, hcalls, herrors, hpieces, hdeltas, concat_append,
        List.foldl_append, String.append_assoc]
      exact ⟨rfl, rfl, rfl⟩

/-! ### Tool calls by index -/

/-- The index of a delta. -/
def indexOf (delta : JsonValue) : Option UInt64 := (delta.get "index").bind JsonValue.asU64

/-- The tool call at an index, empty when there is none. -/
def slotAt (slots : List PartialToolCall) (i : ℕ) : PartialToolCall := slots.getD i {}

theorem length_absorbToolCallDelta {delta : JsonValue} {index : UInt64}
    (h : indexOf delta = some index) (slots : List PartialToolCall) :
    (absorbToolCallDelta serde slots delta).length = max slots.length (index.toNat + 1) := by
  rw [absorbToolCallDelta, ← indexOf, h]
  simp only [Option.map_some, Option.getD_some, List.length_modify, List.length_append,
    List.length_replicate]
  omega

theorem slotAt_append_replicate (slots : List PartialToolCall) (n i : ℕ) :
    slotAt (slots ++ List.replicate n ({ } : PartialToolCall)) i = slotAt slots i := by
  rw [slotAt, slotAt, List.getD_eq_getElem?_getD, List.getD_eq_getElem?_getD,
    List.getElem?_append]
  split
  · rfl
  · rw [List.getElem?_replicate, List.getElem?_eq_none (by omega)]
    split <;> rfl

theorem slotAt_absorbToolCallDelta {delta : JsonValue} {index : UInt64}
    (h : indexOf delta = some index) (slots : List PartialToolCall) (i : ℕ) :
    slotAt (absorbToolCallDelta serde slots delta) i =
      if index.toNat = i then (slotAt slots i).extend serde delta else slotAt slots i := by
  rw [absorbToolCallDelta, ← indexOf, h]
  simp only [Option.map_some, Option.getD_some]
  rw [← slotAt_append_replicate slots (index.toNat + 1 - slots.length) i]
  have hlen : index.toNat <
      (slots ++ List.replicate (index.toNat + 1 - slots.length) ({} : PartialToolCall)).length := by
    rw [List.length_append, List.length_replicate]
    omega
  rw [slotAt, slotAt, List.getD_eq_getElem?_getD, List.getD_eq_getElem?_getD,
    List.getElem?_modify]
  split
  next hi =>
    subst hi
    rw [List.getElem?_eq_getElem hlen]
    rfl
  · simp

/-- The deltas for an index. -/
def deltasAt (i : ℕ) (deltas : List JsonValue) : List JsonValue :=
  deltas.filter fun delta => (indexOf delta).any (·.toNat = i)

/-- Every index has been given, and no other one. -/
theorem length_absorb_deltas {deltas : List JsonValue} {n : ℕ}
    (h : ∀ delta ∈ deltas, ∃ index, indexOf delta = some index ∧ index.toNat < n)
    {slots : List PartialToolCall} (hlen : slots.length ≤ n)
    (hall : ∀ i < n, i < slots.length ∨ deltasAt i deltas ≠ []) :
    (deltas.foldl (absorbToolCallDelta serde) slots).length = n := by
  induction deltas generalizing slots with
  | nil =>
      refine hlen.antisymm (Nat.le_of_not_lt fun hlt => ?_)
      simpa [deltasAt] using hall slots.length hlt
  | cons delta deltas ih =>
      obtain ⟨index, hindex, hlt⟩ := h delta List.mem_cons_self
      have hlength : (absorbToolCallDelta serde slots delta).length = _ :=
        length_absorbToolCallDelta hindex slots
      rw [List.foldl_cons]
      refine ih (fun d hd => h d (List.mem_cons_of_mem _ hd)) (by omega) fun i hi => ?_
      by_cases hat : index.toNat = i
      · exact Or.inl (by omega)
      · refine (hall i hi).imp (fun hslots => by omega) fun hdeltas => ?_
        rwa [deltasAt, List.filter_cons_of_neg (by simpa [hindex] using hat)] at hdeltas

/-- A tool call is made of the deltas for its index. -/
theorem slotAt_absorb_deltas {deltas : List JsonValue}
    (h : ∀ delta ∈ deltas, ∃ index, indexOf delta = some index) (slots : List PartialToolCall)
    (i : ℕ) :
    slotAt (deltas.foldl (absorbToolCallDelta serde) slots) i =
      (deltasAt i deltas).foldl (·.extend serde) (slotAt slots i) := by
  induction deltas generalizing slots with
  | nil => rfl
  | cons delta deltas ih =>
      obtain ⟨index, hindex⟩ := h delta List.mem_cons_self
      rw [List.foldl_cons, ih (fun d hd => h d (List.mem_cons_of_mem _ hd)),
        slotAt_absorbToolCallDelta hindex, deltasAt, deltasAt]
      by_cases hat : index.toNat = i
      · rw [if_pos hat, List.filter_cons_of_pos (by simpa [hindex] using hat), List.foldl_cons]
      · rw [if_neg hat, List.filter_cons_of_neg (by simpa [hindex] using hat)]

/-! ### Pieces of a tool call -/

/-- The deltas bring the text in a field, and no other one. -/
def Settles (field : JsonValue → Option String) (s : String) (deltas : List JsonValue) : Prop :=
  (∀ delta ∈ deltas, ∀ t, field delta = some t → t = s) ∧ ∃ delta ∈ deltas, field delta = some s

theorem foldl_getD {field : JsonValue → Option String} {s : String} {deltas : List JsonValue}
    (h : ∀ delta ∈ deltas, ∀ t, field delta = some t → t = s) (old : String)
    (hs : old = s ∨ ∃ delta ∈ deltas, field delta = some s) :
    deltas.foldl (fun old delta => (field delta).getD old) old = s := by
  induction deltas generalizing old with
  | nil => simpa using hs
  | cons delta deltas ih =>
      rw [List.foldl_cons]
      refine ih (fun d hd => h d (List.mem_cons_of_mem _ hd)) _ ?_
      cases hfield : field delta with
      | some t => exact Or.inl (h delta List.mem_cons_self t hfield)
      | none =>
          refine hs.imp id fun ⟨d, hd, hsome⟩ => ?_
          obtain rfl | hd := List.mem_cons.mp hd
          · rw [hfield] at hsome; cases hsome
          · exact ⟨d, hd, hsome⟩

/-- The field of a delta that has a name. -/
def nameOf (delta : JsonValue) : Option String := strOf (functionField delta "name")

variable (serde) in
def argsPiece (delta : JsonValue) : String :=
  ((functionField delta "arguments").map (jsonishToString serde)).getD ""

variable (serde) in
/-- The deltas are the tool call: its identifier and its name are there, and its arguments in
pieces. -/
structure CallStreams (call : ToolCallRecord) (deltas : List JsonValue) : Prop where
  callId : Settles (fun delta => strOf (delta.get "id")) call.callId deltas
  name : Settles nameOf call.name deltas
  args : concat (deltas.map (argsPiece serde)) = call.args

theorem foldl_extend (deltas : List JsonValue) (slot : PartialToolCall) :
    deltas.foldl (·.extend serde) slot =
      { callId := deltas.foldl (fun old delta => (strOf (delta.get "id")).getD old) slot.callId
        name := deltas.foldl (fun old delta => (nameOf delta).getD old) slot.name
        args := slot.args ++ concat (deltas.map (argsPiece serde)) } := by
  induction deltas generalizing slot with
  | nil => simp [concat]
  | cons delta deltas ih =>
      rw [List.foldl_cons, ih, List.map_cons, concat, ← String.append_assoc]
      rfl

theorem CallStreams.foldl {call : ToolCallRecord} {deltas : List JsonValue}
    (h : CallStreams serde call deltas) :
    (deltas.foldl (·.extend serde) ({} : PartialToolCall)).record = call := by
  rw [foldl_extend, PartialToolCall.record, foldl_getD h.callId.1 _ (Or.inr h.callId.2),
    foldl_getD h.name.1 _ (Or.inr h.name.2), h.args, String.empty_append]

/-! ### Events of Responses -/

/-- An item of a response. -/
inductive OutputItem where
  | message (parts : List String)
  | functionCall (call : ToolCallRecord)
  | other

namespace OutputItem

/-- The value is the item, as far as it is complete. -/
def Shows : OutputItem → JsonValue → Prop
  | .message parts, v => v.typeIs "message" ∧ strOf (v.get "role") = some "assistant" ∧
      ∃ values, v.get "content" = some (.array values) ∧
        List.Forall₂ (fun value text => strOf (value.get "text") = some text) values parts
  | .functionCall call, v => v.typeIs "function_call" ∧
      v.get "call_id" = some (.string call.callId) ∧ v.strField "name" = call.name ∧
      v.get "arguments" = some (.string call.args)
  | .other, v => ¬ v.typeIs "message" ∧ ¬ v.typeIs "function_call"

/-- The events are the item: a message is opened, its texts come in pieces, and it is done; a
function call is opened without its arguments, and it is done. -/
def StreamsAs : OutputItem → List ResponsesEvent → Prop
  | .message parts, events => ∃ (opened closed : JsonValue) (pieces : List String),
      events = .item opened :: pieces.map .textDelta ++ [.item closed] ∧
      Shows (.message []) opened ∧ concat pieces = concat parts ∧ Shows (.message parts) closed
  | .functionCall call, events => ∃ opened closed : JsonValue,
      events = [.item opened, .item closed] ∧
      Shows (.functionCall { call with args := "" }) opened ∧ Shows (.functionCall call) closed
  | .other, events => ∃ values : List JsonValue,
      events = values.map .item ∧ ∀ v ∈ values, Shows .other v

/-- The parts of a message. -/
def messageParts : OutputItem → Option (List String)
  | .message parts => some parts
  | _ => none

def toolCall : OutputItem → Option ToolCallRecord
  | .functionCall call => some call
  | _ => none

end OutputItem

/-- The texts of all messages. -/
def texts (items : List OutputItem) : List String := (items.filterMap OutputItem.messageParts).flatten

/-- The function calls among the items. -/
def calls (items : List OutputItem) : List ToolCallRecord := items.filterMap OutputItem.toolCall

/-- The exchange after these events. -/
def OpenAiExchange.absorbEvents (serde : SerdeJson) (exchange : OpenAiExchange)
    (events : List ResponsesEvent) : OpenAiExchange :=
  events.foldl (·.absorbResponsesEvent serde) exchange

section Items

variable {exchange : OpenAiExchange} {v : JsonValue}

theorem callIdOf_of_shows {call : ToolCallRecord}
    (h : (OutputItem.functionCall call).Shows v) : callIdOf v = call.callId := by
  rw [callIdOf, h.2.1]
  rfl

theorem argumentsOf_of_shows {call : ToolCallRecord}
    (h : (OutputItem.functionCall call).Shows v) : argumentsOf serde v = call.args := by
  rw [argumentsOf, h.2.2.2]
  rfl

theorem contentOf_of_shows {parts : List String} (h : (OutputItem.message parts).Shows v) :
    contentOf serde v = joinLines (parts.filter (· ≠ "")) := by
  obtain ⟨-, -, values, hvalues, hparts⟩ := h
  rw [contentOf, JsonValue.fieldOrNull, hvalues, Option.getD_some]
  exact contentToText_parts serde hparts

/-- A message brings nothing when there is a text, or when it has none. -/
theorem absorb_message {parts : List String} (h : (OutputItem.message parts).Shows v)
    (hsilent : exchange.content = "" → concat parts = "") :
    exchange.absorbOutputItem serde v = exchange := by
  rw [OpenAiExchange.absorbOutputItem, if_pos h.1]
  split
  next hempty =>
    have hparts := hsilent hempty
    rw [← concat_filter, concat_eq_empty] at hparts
    have hnil : parts.filter (· ≠ "") = [] := by
      rw [List.eq_nil_iff_forall_not_mem]
      intro s hs
      have hne := (List.mem_filter.mp hs).2
      simp [hparts s hs] at hne
    rw [contentOf_of_shows h, hnil, joinLines, ← hempty]
  · rfl

theorem absorb_other (h : OutputItem.other.Shows v) :
    exchange.absorbOutputItem serde v = exchange := by
  rw [OpenAiExchange.absorbOutputItem, if_neg h.1, if_neg h.2]

theorem absorb_functionCall {call : ToolCallRecord}
    (h : (OutputItem.functionCall call).Shows v) :
    exchange.absorbOutputItem serde v =
      if call.callId = "" then exchange
      else { exchange with toolCalls := absorbFunctionCall serde v exchange.toolCalls } := by
  have hne : ¬ v.typeIs "message" := fun ht => by simpa using JsonValue.typeIs_inj ht h.1
  rw [OpenAiExchange.absorbOutputItem, if_neg hne, if_pos h.1, callIdOf_of_shows h]

/-! ### Function calls by identifier -/

/-- The tool call of a function call. -/
def slotOf (call : ToolCallRecord) : PartialToolCall where
  callId := call.callId
  name := call.name
  args := call.args

theorem record_slotOf (call : ToolCallRecord) : (slotOf call).record = call := rfl

/-- The identifiers of the tool calls. -/
def ids (slots : List PartialToolCall) : List String := slots.map PartialToolCall.callId

theorem ids_cons (slot : PartialToolCall) (slots : List PartialToolCall) :
    ids (slot :: slots) = slot.callId :: ids slots := rfl

theorem ids_absorbFunctionCall (item : JsonValue) (slots : List PartialToolCall) :
    ids (absorbFunctionCall serde item slots) =
      if callIdOf item ∈ ids slots then ids slots else ids slots ++ [callIdOf item] := by
  induction slots with
  | nil => rfl
  | cons slot slots ih =>
      rw [absorbFunctionCall]
      by_cases hid : slot.callId = callIdOf item
      · rw [if_pos hid, if_pos (by simp [ids, hid])]
        rfl
      · rw [if_neg hid, ids_cons, ids_cons, ih]
        by_cases hmem : callIdOf item ∈ ids slots
        · rw [if_pos hmem, if_pos (List.mem_cons_of_mem _ hmem)]
        · rw [if_neg hmem, if_neg (by simp [hmem, Ne.symm hid]), List.cons_append]

/-- A function call that is new. -/
theorem absorbFunctionCall_of_notMem {call : ToolCallRecord}
    (h : (OutputItem.functionCall call).Shows v) {slots : List PartialToolCall}
    (hnew : call.callId ∉ ids slots) :
    absorbFunctionCall serde v slots = slots ++ [slotOf call] := by
  induction slots with
  | nil => rw [absorbFunctionCall, callIdOf_of_shows h, argumentsOf_of_shows h, h.2.2.1]; rfl
  | cons slot slots ih =>
      rw [ids_cons, List.mem_cons, not_or] at hnew
      rw [absorbFunctionCall, callIdOf_of_shows h, if_neg (Ne.symm hnew.1), ih hnew.2,
        List.cons_append]

/-- A function call that is there. -/
theorem absorbFunctionCall_of_mem {call : ToolCallRecord}
    (h : (OutputItem.functionCall call).Shows v) {slots rest : List PartialToolCall}
    {slot : PartialToolCall} (hslot : slot.callId = call.callId) (hnew : call.callId ∉ ids slots) :
    absorbFunctionCall serde v (slots ++ slot :: rest) =
      slots ++ slot.complete serde v :: rest := by
  induction slots with
  | nil => rw [List.nil_append, absorbFunctionCall, if_pos (hslot.trans (callIdOf_of_shows h).symm),
      List.nil_append]
  | cons slot' slots ih =>
      rw [ids_cons, List.mem_cons, not_or] at hnew
      rw [List.cons_append, absorbFunctionCall, callIdOf_of_shows h, if_neg (Ne.symm hnew.1),
        ih hnew.2, List.cons_append]

theorem complete_slotOf {call : ToolCallRecord} (h : (OutputItem.functionCall call).Shows v)
    {args : String} (hargs : args = "" ∨ args = call.args) :
    (slotOf { call with args := args }).complete serde v = slotOf call := by
  have hname : (if call.name = "" then call.name else call.name) = call.name := ite_self _
  have hfilled : (if args = "" then call.args else args) = call.args := by
    split
    · rfl
    next hempty => exact hargs.resolve_left hempty
  rw [PartialToolCall.complete, argumentsOf_of_shows h, h.2.2.1]
  exact congrArg₂ (PartialToolCall.mk call.callId) hname hfilled

/-! ### Items that have been gathered -/

/-- The identifiers of the calls are there, each once. -/
def Named (calls : List ToolCallRecord) : Prop :=
  (calls.map ToolCallRecord.callId).Nodup ∧ "" ∉ calls.map ToolCallRecord.callId

/-- The accumulator has these items. -/
structure Gathered (items : List OutputItem) (exchange : OpenAiExchange) : Prop where
  content : exchange.content = concat (texts items)
  nodup : (ids exchange.toolCalls).Nodup
  notMem : "" ∉ ids exchange.toolCalls
  toolCalls : Named (calls items) → exchange.toolCalls = (calls items).map slotOf
  parseErrors : exchange.parseErrors = []

theorem texts_append (items items' : List OutputItem) :
    texts (items ++ items') = texts items ++ texts items' := by
  rw [texts, List.filterMap_append, List.flatten_append, ← texts, ← texts]

theorem calls_append (items items' : List OutputItem) :
    calls (items ++ items') = calls items ++ calls items' := List.filterMap_append

theorem ids_map_slotOf (calls : List ToolCallRecord) :
    ids (calls.map slotOf) = calls.map ToolCallRecord.callId := by
  rw [ids, List.map_map]
  rfl

variable (serde) in
/-- What a function call does to identifiers. -/
theorem distinct_absorb {slots : List PartialToolCall} (hnodup : (ids slots).Nodup)
    (hnot : "" ∉ ids slots) (hid : callIdOf v ≠ "") :
    (ids (absorbFunctionCall serde v slots)).Nodup ∧
      "" ∉ ids (absorbFunctionCall serde v slots) := by
  rw [ids_absorbFunctionCall]
  split
  · exact ⟨hnodup, hnot⟩
  next hnew =>
    refine ⟨List.nodup_append.mpr ⟨hnodup, List.nodup_singleton _, ?_⟩, ?_⟩
    · rintro a ha b hb rfl
      exact hnew (List.mem_singleton.mp hb ▸ ha)
    · rw [List.mem_append, List.mem_singleton, not_or]
      exact ⟨hnot, Ne.symm hid⟩

/-- An item that has been gathered already brings nothing. -/
theorem Gathered.again {items : List OutputItem} (h : Gathered items exchange)
    {item : OutputItem} (hitem : item ∈ items) (hshows : item.Shows v) :
    Gathered items (exchange.absorbOutputItem serde v) := by
  cases item with
  | other => rwa [absorb_other hshows]
  | message parts =>
      rw [absorb_message hshows]
      · exact h
      · intro hempty
        rw [h.content, concat_eq_empty] at hempty
        have hparts : parts ∈ items.filterMap OutputItem.messageParts :=
          List.mem_filterMap.mpr ⟨_, hitem, rfl⟩
        exact concat_eq_empty.mpr fun s hs =>
          hempty s (List.mem_flatten.mpr ⟨parts, hparts, hs⟩)
  | functionCall call =>
      rw [absorb_functionCall hshows]
      split
      · exact h
      next hid =>
        have hdistinct := distinct_absorb serde h.nodup h.notMem
          (callIdOf_of_shows hshows ▸ hid)
        refine ⟨h.content, hdistinct.1, hdistinct.2, fun hnamed => ?_, h.parseErrors⟩
        have hmem : call ∈ calls items := List.mem_filterMap.mpr ⟨_, hitem, rfl⟩
        obtain ⟨before, rest, hsplit⟩ := List.append_of_mem hmem
        have hnew : call.callId ∉ ids (before.map slotOf) := by
          have hnodup := hnamed.1
          rw [hsplit, List.map_append, List.map_cons, List.nodup_append] at hnodup
          rw [ids_map_slotOf]
          exact fun hmem => hnodup.2.2 _ hmem _ List.mem_cons_self rfl
        show absorbFunctionCall serde v exchange.toolCalls = _
        rw [h.toolCalls hnamed, hsplit, List.map_append, List.map_cons,
          absorbFunctionCall_of_mem hshows rfl hnew]
        congr 2
        exact complete_slotOf hshows (Or.inr rfl)

theorem Gathered.functionCall {items : List OutputItem} (h : Gathered items exchange)
    {call : ToolCallRecord} {opened closed : JsonValue}
    (hopened : (OutputItem.functionCall { call with args := "" }).Shows opened)
    (hclosed : (OutputItem.functionCall call).Shows closed) :
    Gathered (items ++ [.functionCall call])
      ((exchange.absorbOutputItem serde opened).absorbOutputItem serde closed) := by
  have htexts : texts (items ++ [.functionCall call]) = texts items := by
    rw [texts_append]
    exact List.append_nil _
  have hcalls : calls (items ++ [.functionCall call]) = calls items ++ [call] := by
    rw [calls_append]
    rfl
  rw [absorb_functionCall hopened, absorb_functionCall hclosed]
  by_cases hid : call.callId = ""
  · rw [if_pos hid, if_pos hid]
    refine ⟨htexts ▸ h.content, h.nodup, h.notMem, fun hnamed => ?_, h.parseErrors⟩
    rw [hcalls, Named, List.map_append, List.mem_append, not_or] at hnamed
    exact absurd (List.mem_singleton.mpr hid.symm) hnamed.2.2
  · rw [if_neg hid, if_neg hid]
    have hfirst := distinct_absorb serde h.nodup h.notMem
      (callIdOf_of_shows hopened ▸ hid)
    have hsecond := distinct_absorb serde hfirst.1 hfirst.2
      (callIdOf_of_shows hclosed ▸ hid)
    refine ⟨htexts ▸ h.content, hsecond.1, hsecond.2, fun hnamed => ?_, h.parseErrors⟩
    rw [hcalls] at hnamed ⊢
    rw [Named, List.map_append, List.nodup_append, List.mem_append, not_or] at hnamed
    have hold := h.toolCalls ⟨hnamed.1.1, hnamed.2.1⟩
    have hnew : call.callId ∉ ids exchange.toolCalls := by
      rw [hold, ids_map_slotOf]
      exact fun hmem => hnamed.1.2.2 _ hmem _ (List.mem_singleton.mpr rfl) rfl
    show absorbFunctionCall serde closed (absorbFunctionCall serde opened exchange.toolCalls) = _
    rw [absorbFunctionCall_of_notMem hopened hnew, absorbFunctionCall_of_mem hclosed rfl hnew,
      complete_slotOf hclosed (Or.inl rfl), hold, List.map_append]
    rfl

theorem absorb_pieces (pieces : List String) (exchange : OpenAiExchange) :
    exchange.absorbEvents serde (pieces.map .textDelta) =
      { exchange with content := exchange.content ++ concat pieces } := by
  induction pieces generalizing exchange with
  | nil => simp [OpenAiExchange.absorbEvents, concat]
  | cons s pieces ih =>
      rw [List.map_cons, OpenAiExchange.absorbEvents, List.foldl_cons,
        ← OpenAiExchange.absorbEvents, ih, OpenAiExchange.absorbResponsesEvent, concat,
        ← String.append_assoc]

theorem absorb_others {values : List JsonValue} (h : ∀ v ∈ values, OutputItem.other.Shows v)
    (exchange : OpenAiExchange) :
    exchange.absorbEvents serde (values.map .item) = exchange := by
  induction values generalizing exchange with
  | nil => rfl
  | cons v values ih =>
      rw [List.map_cons, OpenAiExchange.absorbEvents, List.foldl_cons,
        ← OpenAiExchange.absorbEvents, ih fun v' hv' => h v' (List.mem_cons_of_mem _ hv'),
        OpenAiExchange.absorbResponsesEvent, absorb_other (h v List.mem_cons_self)]

/-- **One more item has been streamed.** -/
theorem Gathered.item {items : List OutputItem} (h : Gathered items exchange)
    {item : OutputItem} {events : List ResponsesEvent} (hitem : item.StreamsAs events) :
    Gathered (items ++ [item]) (exchange.absorbEvents serde events) := by
  cases item with
  | other =>
      obtain ⟨values, rfl, hvalues⟩ := hitem
      rw [absorb_others hvalues]
      refine ⟨?_, h.nodup, h.notMem, ?_, h.parseErrors⟩
      · rw [texts_append, h.content]
        exact congrArg concat (List.append_nil _).symm
      · rw [calls_append]
        exact (List.append_nil (calls items)).symm ▸ h.toolCalls
  | functionCall call =>
      obtain ⟨opened, closed, rfl, hopened, hclosed⟩ := hitem
      exact h.functionCall hopened hclosed
  | message parts =>
      obtain ⟨opened, closed, pieces, rfl, hopened, hpieces, hclosed⟩ := hitem
      have hevents : exchange.absorbEvents serde
            (.item opened :: pieces.map .textDelta ++ [.item closed]) =
          { exchange with content := exchange.content ++ concat parts } := by
        rw [OpenAiExchange.absorbEvents, List.cons_append, List.foldl_cons, List.foldl_append,
          ← OpenAiExchange.absorbEvents, ← OpenAiExchange.absorbEvents, absorb_pieces,
          OpenAiExchange.absorbResponsesEvent, absorb_message hopened fun _ => rfl, hpieces]
        exact absorb_message hclosed fun hempty => (String.append_eq_empty_iff.mp hempty).2
      rw [hevents]
      refine ⟨?_, h.nodup, h.notMem, ?_, h.parseErrors⟩
      · rw [texts_append, concat_append, ← h.content]
        exact congrArg (exchange.content ++ concat ·) (List.append_nil parts).symm
      · rw [calls_append]
        exact (List.append_nil (calls items)).symm ▸ h.toolCalls

/-- **All items have been streamed.** -/
theorem Gathered.items {items rest : List OutputItem} {segments : List (List ResponsesEvent)}
    (hitems : List.Forall₂ OutputItem.StreamsAs rest segments) (h : Gathered items exchange) :
    Gathered (items ++ rest) (exchange.absorbEvents serde segments.flatten) := by
  induction hitems generalizing items exchange with
  | nil => rwa [List.append_nil]
  | @cons item events rest segments hitem _ ih =>
      rw [List.flatten_cons, OpenAiExchange.absorbEvents, List.foldl_append,
        ← OpenAiExchange.absorbEvents, ← OpenAiExchange.absorbEvents, ← List.singleton_append,
        ← List.append_assoc]
      exact ih (h.item hitem)

/-- Items that have been gathered already bring nothing. -/
theorem Gathered.output {items : List OutputItem} {output : List JsonValue}
    (houtput : ∀ v ∈ output, ∃ item ∈ items, item.Shows v) (h : Gathered items exchange) :
    Gathered items (output.foldl (·.absorbOutputItem serde) exchange) := by
  induction output generalizing exchange with
  | nil => exact h
  | cons v output ih =>
      obtain ⟨item, hitem, hshows⟩ := houtput v List.mem_cons_self
      exact ih (fun v' hv' => houtput v' (List.mem_cons_of_mem _ hv')) (h.again hitem hshows)

/-- A response brings nothing new. -/
theorem Gathered.response {items : List OutputItem} {response : JsonValue}
    (hresponse : ∀ v ∈ (response.arrayField "output").getD [], ∃ item ∈ items, item.Shows v)
    (h : Gathered items exchange) :
    Gathered items (exchange.absorbResponsesEvent serde (.response response)) := by
  have hnote : Gathered items (exchange.noteResponse response) :=
    ⟨h.content, h.nodup, h.notMem, h.toolCalls, h.parseErrors⟩
  rw [OpenAiExchange.absorbResponsesEvent, OpenAiExchange.absorbOutput]
  cases houtput : response.arrayField "output" with
  | none => exact hnote
  | some output => exact hnote.output (by simpa [houtput] using hresponse)

theorem Gathered.begins {begins : List JsonValue}
    (hbegins : ∀ response ∈ begins, (response.arrayField "output").getD [] = [])
    (h : Gathered [] exchange) :
    Gathered [] (exchange.absorbEvents serde (begins.map .response)) := by
  induction begins generalizing exchange with
  | nil => exact h
  | cons response begins ih =>
      refine ih (fun r hr => hbegins r (List.mem_cons_of_mem _ hr)) (h.response ?_)
      simp [hbegins response List.mem_cons_self]

end Items

variable (serde) in
/-- The event of a frame. -/
def frameEvent (frame : SseFrame) : Option ResponsesEvent :=
  if trim frame.data = "[DONE]" then none
  else
    match serde.fromStr frame.data with
    | .error _ => none
    | .ok payload =>
        (strOf (payload.get "type")).bind fun eventType => responsesEvent eventType payload

variable (serde) in
/-- The frame is one of Responses. -/
def IsEvent (frame : SseFrame) : Prop :=
  trim frame.data = "[DONE]" ∨ ∃ payload eventType, serde.fromStr frame.data = .ok payload ∧
    strOf (payload.get "type") = some eventType

variable (serde) in
/-- The frames stream the items: first the response without output, then item after item, and
last the response with all of them. Other events may be in between. -/
structure ResponsesStreams (items : List OutputItem) (frames : List SseFrame) : Prop where
  event : ∀ frame ∈ frames, IsEvent serde frame
  events : ∃ (begins : List JsonValue) (segments : List (List ResponsesEvent))
    (response : JsonValue) (output : List JsonValue),
    frames.filterMap (frameEvent serde) =
      begins.map .response ++ segments.flatten ++ [.response response] ∧
    (∀ begin ∈ begins, (begin.arrayField "output").getD [] = []) ∧
    List.Forall₂ OutputItem.StreamsAs items segments ∧
    response.arrayField "output" = some output ∧ List.Forall₂ OutputItem.Shows items output

theorem absorbAll_events {frames : List SseFrame} (h : ∀ frame ∈ frames, IsEvent serde frame)
    (exchange : OpenAiExchange) :
    exchange.absorbAll serde frames =
      exchange.absorbEvents serde (frames.filterMap (frameEvent serde)) := by
  rw [OpenAiExchange.absorbAll, OpenAiExchange.absorbEvents, List.foldl_filterMap]
  induction frames generalizing exchange with
  | nil => rfl
  | cons frame frames ih =>
      rw [List.foldl_cons, List.foldl_cons, ih fun f hf => h f (List.mem_cons_of_mem _ hf)]
      congr 1
      rw [OpenAiExchange.absorbSseFrame, frameEvent]
      by_cases hdone : trim frame.data = "[DONE]"
      · rw [if_pos hdone, if_pos hdone]
      · obtain hdone' | ⟨payload, eventType, hpayload, htype⟩ := h frame List.mem_cons_self
        · exact absurd hdone' hdone
        · simp only [if_neg hdone, hpayload, htype, Option.bind_some]
          cases responsesEvent eventType payload <;> rfl

theorem gathered_new (exchangeId : String) (model : Option String) :
    Gathered [] (OpenAiExchange.new exchangeId model) where
  content := rfl
  nodup := List.nodup_nil
  notMem := List.not_mem_nil
  toolCalls _ := rfl
  parseErrors := rfl

theorem exists_shown {items : List OutputItem} {output : List JsonValue}
    (h : List.Forall₂ OutputItem.Shows items output) :
    ∀ v ∈ output, ∃ item ∈ items, item.Shows v := by
  induction h with
  | nil => simp
  | @cons item value items output hshows _ ih =>
      intro v hv
      obtain rfl | hv := List.mem_cons.mp hv
      · exact ⟨item, List.mem_cons_self, hshows⟩
      · obtain ⟨item', hitem', hshows'⟩ := ih v hv
        exact ⟨item', List.mem_cons_of_mem _ hitem', hshows'⟩

/-- **The accumulator after the events of a response** has its items. -/
theorem ResponsesStreams.absorbAll {items : List OutputItem} {frames : List SseFrame}
    (h : ResponsesStreams serde items frames) (exchangeId : String) (model : Option String) :
    Gathered items ((OpenAiExchange.new exchangeId model).absorbAll serde frames) := by
  obtain ⟨begins, segments, response, output, hevents, hbegins, hsegments, houtput, hshows⟩ :=
    h.events
  rw [absorbAll_events h.event, hevents, OpenAiExchange.absorbEvents, List.foldl_append,
    List.foldl_append, ← OpenAiExchange.absorbEvents, ← OpenAiExchange.absorbEvents]
  refine Gathered.response ?_ (Gathered.items hsegments ((gathered_new exchangeId model).begins hbegins))
  rw [houtput, Option.getD_some]
  exact exists_shown hshows

/-! ### Complete responses -/

theorem outputText_of_shows {items : List OutputItem} {output : List JsonValue}
    (h : List.Forall₂ OutputItem.Shows items output) :
    outputText serde output = joinLines ((texts items).filter (· ≠ "")) := by
  rw [outputText, texts, ← joinLines_flatten]
  congr 2
  induction h with
  | nil => rfl
  | @cons item v items output hshows _ ih =>
      cases item with
      | message parts =>
          rw [List.filter_cons_of_pos (by simp [hshows.1, hshows.2.1]), List.map_cons, ih,
            contentOf_of_shows hshows]
          rfl
      | functionCall call =>
          have hne : ¬ v.typeIs "message" := fun ht => by
            simpa using JsonValue.typeIs_inj ht hshows.1
          rw [List.filter_cons_of_neg (by simp [hne]), ih]
          rfl
      | other =>
          rw [List.filter_cons_of_neg (by simp [hshows.1]), ih]
          rfl

theorem parseResponsesToolCalls_of_shows {items : List OutputItem} {output : List JsonValue}
    (h : List.Forall₂ OutputItem.Shows items output) :
    parseResponsesToolCalls serde output = calls items := by
  rw [parseResponsesToolCalls]
  induction h with
  | nil => rfl
  | @cons item v items output hshows _ ih =>
      cases item with
      | message parts =>
          have hne : ¬ v.typeIs "function_call" := fun ht => by
            simpa using JsonValue.typeIs_inj ht hshows.1
          rw [List.filter_cons_of_neg (by simpa using hne), ih]
          rfl
      | functionCall call =>
          rw [List.filter_cons_of_pos (by simpa using hshows.1), List.map_cons, ih, callIdOf_of_shows hshows,
            argumentsOf_of_shows hshows, hshows.2.2.1]
          rfl
      | other =>
          rw [List.filter_cons_of_neg (by simpa using hshows.2), ih]
          rfl

/-! ### Chat messages -/

/-- The value is the tool call, in a complete message. -/
def CallShows (call : ToolCallRecord) (v : JsonValue) : Prop :=
  v.strField "id" = call.callId ∧ nameOf v = some call.name ∧
    functionField v "arguments" = some (.string call.args)

/-- A content, as a value. -/
def contentValue : Option String → JsonValue
  | none => .null
  | some s => .string s

variable (serde) in
/-- The frames stream the message: its content in pieces, and every tool call at its index. -/
structure ChatStreams (content : Option String) (calls : List ToolCallRecord)
    (frames : List SseFrame) : Prop where
  chunk : ∀ frame ∈ frames, IsChunk serde frame
  content : concat (contentPieces serde frames) = content.getD ""
  indexed : ∀ delta ∈ callDeltas serde frames,
    ∃ index, indexOf delta = some index ∧ index.toNat < calls.length
  call : ∀ (i : ℕ) (call : ToolCallRecord), calls[i]? = some call →
    CallStreams serde call (deltasAt i (callDeltas serde frames))

/-- **The accumulator after the chunks of a message** has its content and its tool calls. -/
theorem ChatStreams.absorbAll {content : Option String} {calls : List ToolCallRecord}
    {frames : List SseFrame} (h : ChatStreams serde content calls frames) (exchangeId : String)
    (model : Option String) :
    ((OpenAiExchange.new exchangeId model).absorbAll serde frames).content = content.getD "" ∧
      ((OpenAiExchange.new exchangeId model).absorbAll serde frames).toolCalls.map
        PartialToolCall.record = calls ∧
      ((OpenAiExchange.new exchangeId model).absorbAll serde frames).parseErrors = [] := by
  obtain ⟨hcontent, hcalls, herrors⟩ := absorbAll_chunks h.chunk (.new exchangeId model)
  refine ⟨hcontent.trans (by rw [h.content]; exact String.empty_append), ?_, herrors⟩
  rw [hcalls]
  have hlen : ((callDeltas serde frames).foldl (absorbToolCallDelta serde) []).length =
      calls.length := by
    refine length_absorb_deltas h.indexed (Nat.zero_le _) fun i hi => Or.inr fun hnil => ?_
    obtain ⟨-, delta, hdelta, -⟩ := (h.call i _ (List.getElem?_eq_getElem hi)).callId
    rw [hnil] at hdelta
    cases hdelta
  refine List.ext_getElem (by simpa [OpenAiExchange.new] using hlen) fun i hi hi' => ?_
  have hslot :
      slotAt ((callDeltas serde frames).foldl (absorbToolCallDelta serde) []) i = _ :=
    slotAt_absorb_deltas (fun delta hdelta => (h.indexed delta hdelta).imp fun _ => And.left) [] i
  have hcall := (h.call i _ (List.getElem?_eq_getElem hi')).foldl
  rw [List.getElem_map, ← hcall]
  congr 1
  refine Eq.trans ?_ hslot
  rw [slotAt, List.getD_eq_getElem?_getD, List.getElem?_eq_getElem (hlen.symm ▸ hi'),
    Option.getD_some]
  rfl

theorem map_toolCallRecord {calls : List ToolCallRecord} {values : List JsonValue}
    (h : List.Forall₂ CallShows calls values) : values.map (toolCallRecord serde) = calls := by
  induction h with
  | nil => rfl
  | cons hcall _ ih =>
      obtain ⟨hid, hname, hargs⟩ := hcall
      rw [List.map_cons, ih, toolCallRecord, hid, ← nameOf, hname, hargs]
      rfl

theorem parseToolCalls_of_shows {calls : List ToolCallRecord} {message : JsonValue}
    (h : List.Forall₂ CallShows calls ((message.arrayField "tool_calls").getD [])) :
    parseToolCalls serde (message.get "tool_calls") = calls := by
  rw [parseToolCalls, ← JsonValue.arrayField]
  cases hfield : message.arrayField "tool_calls" with
  | none =>
      rw [hfield] at h
      cases h
      rfl
  | some values =>
      rw [hfield] at h
      exact map_toolCallRecord h

theorem contentOf_of_contentValue {content : Option String} {message : JsonValue}
    (h : message.fieldOrNull "content" = contentValue content) :
    contentOf serde message = content.getD "" := by
  rw [contentOf, h]
  cases content <;> rw [contentValue, contentToText] <;> rfl

/-! ### The two turns -/

/-- What an assistant answers. -/
inductive Message where
  | chat (content : Option String) (calls : List ToolCallRecord)
  | responses (items : List OutputItem)

namespace Message

/-- The value is the message, as a complete body. -/
def Shows : Message → JsonValue → Prop
  | .chat content calls, payload => ∃ message,
      (firstChoice payload).bind (·.get "message") = some message ∧
      message.fieldOrNull "content" = contentValue content ∧
      List.Forall₂ CallShows calls ((message.arrayField "tool_calls").getD [])
  | .responses items, payload => (firstChoice payload).bind (·.get "message") = none ∧
      payload.get "response" = none ∧ ∃ output, payload.arrayField "output" = some output ∧
        List.Forall₂ OutputItem.Shows items output

variable (serde) in
/-- The frames stream the message. -/
def Streams : Message → List SseFrame → Prop
  | .chat content calls, frames => ChatStreams serde content calls frames
  | .responses items, frames => ResponsesStreams serde items frames

/-- A chat message that is not empty, and a response with at most one text and with the
identifiers of its function calls. -/
def Settled : Message → Prop
  | .chat content calls => content.getD "" ≠ "" ∨ calls ≠ []
  | .responses items => ((texts items).filter (· ≠ "")).length ≤ 1 ∧ Named (calls items)

end Message

/-- What is said by the turns of a text and tool calls: there is none without both. -/
def captured (text : String) (calls : List ToolCallRecord) :
    List (Option (String × List ToolCallRecord)) :=
  if text = "" ∧ calls = [] then [] else [some (text, calls)]

theorem captured_inj {text text' : String} {calls calls' : List ToolCallRecord} :
    captured text calls = captured text' calls' ↔ text = text' ∧ calls = calls' := by
  rw [captured, captured]
  split
  next h =>
    obtain ⟨rfl, rfl⟩ := h
    split
    next h' =>
      obtain ⟨rfl, rfl⟩ := h'
      simp
    next h' =>
      constructor
      · nofun
      · rintro ⟨rfl, rfl⟩
        exact absurd ⟨rfl, rfl⟩ h'
  next h =>
    split
    next h' =>
      obtain ⟨rfl, rfl⟩ := h'
      constructor
      · nofun
      · rintro ⟨rfl, rfl⟩
        exact absurd ⟨rfl, rfl⟩ h
    · simp

theorem captured_eq_iff {text : String} {calls : List ToolCallRecord} :
    captured text calls = [some (text, calls)] ↔ text ≠ "" ∨ calls ≠ [] := by
  rw [captured]
  split
  next h => simp [h]
  next h => simpa [imp_iff_not_or] using h

/-- What the accumulator says. -/
theorem OpenAiExchange.said_item (exchange : OpenAiExchange) :
    (exchange.item.map HistoryItem.said).toList =
      captured exchange.content (exchange.toolCalls.map PartialToolCall.record) := by
  rw [OpenAiExchange.item, captured]
  simp only [List.map_eq_nil_iff]
  split <;> rfl

/-- What a stream says at its end. -/
theorem said_finalizeStream (session : SessionRuntime) {exchange : OpenAiExchange} {status : ℕ}
    (requestId : Option String) (artifacts : ArtifactRefs) (hstatus : status < 400)
    (herrors : exchange.parseErrors = []) :
    (finalizeStream session exchange status requestId artifacts none).1.map TurnEnvelope.said =
      captured exchange.content (exchange.toolCalls.map PartialToolCall.record) := by
  rw [finalizeStream_eq session requestId artifacts hstatus herrors, said_capture,
    OpenAiExchange.said_item]

/-- What a complete body says. -/
theorem said_finalizeJson (session : SessionRuntime) {exchange : OpenAiExchange} {status : ℕ}
    (requestId : Option String) (artifacts : ArtifactRefs) (hstatus : status < 400)
    (lossy : String) (payload : JsonValue) :
    (finalizeJson serde session exchange status requestId { lossy := lossy, json := .ok payload }
        artifacts).1.map TurnEnvelope.said =
      ((parseAssistantPayload serde payload exchange.model).map HistoryItem.said).toList := by
  rw [finalizeJson_eq session exchange requestId artifacts hstatus rfl, said_capture]

/-- What a complete response says. -/
theorem said_responses {items : List OutputItem} {payload : JsonValue}
    (h : (Message.responses items).Shows payload) (model : Option String) :
    ((parseAssistantPayload serde payload model).map HistoryItem.said).toList =
      captured (joinLines ((texts items).filter (· ≠ ""))) (calls items) := by
  obtain ⟨hmessage, hresponse, output, houtput, hshows⟩ := h
  rw [parseAssistantPayload, hmessage, captured]
  have hfirst : (some output <|> some output) = some output := rfl
  simp only [hresponse, Option.getD_none, houtput, hfirst, outputText_of_shows hshows,
    parseResponsesToolCalls_of_shows hshows]
  split <;> rfl

/-- What a complete message says. -/
theorem said_chat {content : Option String} {calls : List ToolCallRecord} {payload : JsonValue}
    (h : (Message.chat content calls).Shows payload) (model : Option String) :
    ((parseAssistantPayload serde payload model).map HistoryItem.said).toList =
      [some (content.getD "", calls)] := by
  obtain ⟨message, hmessage, hcontent, hcalls⟩ := h
  rw [parseAssistantPayload, hmessage]
  simp only [contentOf_of_contentValue hcontent, parseToolCalls_of_shows hcalls]
  rfl

/-- The text of the accumulator is that of the response when there is at most one. -/
theorem concat_eq_joinLines_iff (l : List String) :
    concat l = joinLines (l.filter (· ≠ "")) ↔ (l.filter (· ≠ "")).length ≤ 1 := by
  rw [← concat_filter, joinLines_eq_concat_iff]

/-- The tool calls of the accumulator are those of the response when they have identifiers. -/
theorem Gathered.records_eq_iff {items : List OutputItem} {exchange : OpenAiExchange}
    (h : Gathered items exchange) :
    exchange.toolCalls.map PartialToolCall.record = calls items ↔ Named (calls items) := by
  constructor
  · intro heq
    have hids : (calls items).map ToolCallRecord.callId = ids exchange.toolCalls := by
      rw [← heq, List.map_map]
      rfl
    rw [Named, hids]
    exact ⟨h.nodup, h.notMem⟩
  · intro hnamed
    rw [h.toolCalls hnamed, List.map_map]
    exact List.map_id _

/-- **The stream of a message makes the turn of the complete message** exactly when a chat
message is not empty, and a response has at most one text that is not and an identifier of its
own for every function call. -/
theorem openai_stream_eq_iff (session : SessionRuntime) (exchangeId : String)
    (model requestId requestId' : Option String) (status : ℕ)
    (artifacts artifacts' : ArtifactRefs) (lossy : String) {message : Message}
    {payload : JsonValue} {frames : List SseFrame} (hpayload : message.Shows payload)
    (hframes : message.Streams serde frames) (hstatus : status < 400) :
    (finalizeStream session ((OpenAiExchange.new exchangeId model).absorbAll serde frames) status
        requestId artifacts none).1.map TurnEnvelope.said =
      (finalizeJson serde session (.new exchangeId model) status requestId'
        { lossy := lossy, json := .ok payload } artifacts').1.map TurnEnvelope.said ↔
      message.Settled := by
  rw [said_finalizeJson session requestId' artifacts' hstatus]
  cases message with
  | chat content calls =>
      obtain ⟨hcontent, hcalls, herrors⟩ := hframes.absorbAll exchangeId model
      rw [said_finalizeStream session requestId artifacts hstatus herrors, hcontent, hcalls,
        said_chat hpayload, Message.Settled]
      exact captured_eq_iff
  | responses items =>
      have hgathered := hframes.absorbAll exchangeId model
      rw [said_finalizeStream session requestId artifacts hstatus hgathered.parseErrors,
        said_responses hpayload, captured_inj, hgathered.content, concat_eq_joinLines_iff,
        hgathered.records_eq_iff, Message.Settled]

/-! ### Two parts of a text -/

/-- A message with these texts. -/
def messageItem (parts : List String) : JsonValue :=
  .object [("content", .array (parts.map fun s =>
      .object [("text", .string s), ("type", .string "output_text")])),
    ("role", .string "assistant"), ("type", .string "message")]

/-- A response with this output. -/
def responseOf (status : String) (output : List JsonValue) : JsonValue :=
  .object [("model", .string "m"), ("output", .array output), ("status", .string status)]

/-- The events of a message with two texts. -/
def twoTexts : List JsonValue :=
  [.object [("response", responseOf "in_progress" []), ("type", .string "response.created")],
    .object [("item", messageItem []), ("type", .string "response.output_item.added")],
    .object [("delta", .string "a"), ("type", .string "response.output_text.delta")],
    .object [("delta", .string "bc"), ("type", .string "response.output_text.delta")],
    .object [("item", messageItem ["a", "bc"]), ("type", .string "response.output_item.done")],
    .object [("response", responseOf "completed" [messageItem ["a", "bc"]]),
      ("type", .string "response.completed")]]

/-- The writer, which meets no doubles here. -/
def writer : SerdeJson where
  fromStr _ := .error "expected value at line 1 column 1"
  doubleText _ := "0.0"

/-- `serde_json`, as far as it reads what is written for these values. -/
def reading (values : List JsonValue) : SerdeJson where
  fromStr data :=
    match values.find? (·.text writer = data) with
    | some v => .ok v
    | none => writer.fromStr data
  doubleText := writer.doubleText

/-- The frames of these values. -/
def framesOf (values : List JsonValue) : List SseFrame :=
  values.map fun v => { event := none, data := v.text writer, raw := "" }

theorem fromStr_reading {values : List JsonValue}
    (hnodup : (values.map (JsonValue.text writer)).Nodup) {v : JsonValue} (hv : v ∈ values) :
    (reading values).fromStr (v.text writer) = .ok v := by
  have hfind : values.find? (·.text writer = v.text writer) = some v := by
    induction values with
    | nil => cases hv
    | cons w values ih =>
        rw [List.map_cons, List.nodup_cons] at hnodup
        obtain rfl | hv := List.mem_cons.mp hv
        · simp
        · have hne : w.text writer ≠ v.text writer := fun h =>
            hnodup.1 (h ▸ List.mem_map_of_mem hv)
          rw [List.find?_cons_of_neg (by simpa using hne)]
          exact ih hnodup.2 hv
  simp only [reading, hfind]

/-- The events of values that are all read back. -/
theorem frameEvent_reading {values : List JsonValue}
    (hnodup : (values.map (JsonValue.text writer)).Nodup)
    (hdone : ∀ v ∈ values, trim (v.text writer) ≠ "[DONE]") :
    (framesOf values).filterMap (frameEvent (reading values)) =
      values.filterMap fun v => (strOf (v.get "type")).bind (responsesEvent · v) := by
  rw [framesOf, List.filterMap_map]
  refine List.filterMap_congr fun v hv => ?_
  rw [Function.comp_apply, frameEvent, if_neg (hdone v hv)]
  simp only [fromStr_reading hnodup hv]

/-- The message of two texts. -/
def twoTextsMessage : Message := .responses [.message ["a", "bc"]]

theorem twoTexts_item : (OutputItem.message ["a", "bc"]).Shows (messageItem ["a", "bc"]) :=
  ⟨by decide, by decide, _, rfl, .cons rfl (.cons rfl .nil)⟩

theorem twoTexts_shows :
    twoTextsMessage.Shows (responseOf "completed" [messageItem ["a", "bc"]]) :=
  ⟨rfl, rfl, _, rfl, .cons twoTexts_item .nil⟩

set_option maxRecDepth 2000 in
/-- The texts of these values can be told apart. -/
theorem twoTexts_nodup : (twoTexts.map (JsonValue.text writer)).Nodup := by
  refine List.Nodup.of_map String.utf8ByteSize ?_
  decide

theorem twoTexts_notDone : ∀ v ∈ twoTexts, trim (v.text writer) ≠ "[DONE]" := by
  simp [twoTexts, trim_object_ne_done]

theorem twoTexts_streams : twoTextsMessage.Streams (reading twoTexts) (framesOf twoTexts) := by
  constructor
  · intro frame hframe
    obtain ⟨v, hv, rfl⟩ := List.mem_map.mp hframe
    have htyped : ∀ v ∈ twoTexts, (strOf (v.get "type")).isSome := by
      simp only [twoTexts, List.forall_mem_cons]
      decide
    obtain ⟨eventType, htype⟩ := Option.isSome_iff_exists.mp (htyped v hv)
    exact Or.inr ⟨v, eventType, fromStr_reading twoTexts_nodup hv, htype⟩
  · refine ⟨[responseOf "in_progress" []], [[.item (messageItem []), .textDelta "a",
      .textDelta "bc", .item (messageItem ["a", "bc"])]], responseOf "completed"
      [messageItem ["a", "bc"]], _, ?_, ?_, ?_, rfl, .cons twoTexts_item .nil⟩
    · rw [frameEvent_reading twoTexts_nodup twoTexts_notDone]
      rfl
    · intro begin hbegin
      obtain rfl := List.mem_singleton.mp hbegin
      rfl
    · exact .cons ⟨messageItem [], messageItem ["a", "bc"], ["a", "bc"], rfl,
        ⟨by decide, by decide, _, rfl, .nil⟩, rfl, twoTexts_item⟩ .nil

/-- **Two parts of a text** get a line break between them, but not when they are streamed. -/
theorem streamed_parts_differ :
    (finalizeStream freshSession ((OpenAiExchange.new "e" none).absorbAll (reading twoTexts)
        (framesOf twoTexts)) 200 none {} none).1.map TurnEnvelope.said = [some ("abc", [])] ∧
    (finalizeJson (reading twoTexts) freshSession (.new "e" none) 200 none
        { lossy := "", json := .ok (responseOf "completed" [messageItem ["a", "bc"]]) }
        {}).1.map TurnEnvelope.said = [some ("a\nbc", [])] ∧
    twoTextsMessage.Shows (responseOf "completed" [messageItem ["a", "bc"]]) ∧
    twoTextsMessage.Streams (reading twoTexts) (framesOf twoTexts) :=
  ⟨by
      rw [absorbAll_events twoTexts_streams.event,
        frameEvent_reading twoTexts_nodup twoTexts_notDone]
      decide,
    by decide, twoTexts_shows, twoTexts_streams⟩

/-- The turns of that message and its stream are not the same. -/
theorem openai_stream_eq_iff_twoTexts :
    ¬ ((finalizeStream freshSession ((OpenAiExchange.new "e" none).absorbAll (reading twoTexts)
        (framesOf twoTexts)) 200 none {} none).1.map TurnEnvelope.said =
      (finalizeJson (reading twoTexts) freshSession (.new "e" none) 200 none
        { lossy := "", json := .ok (responseOf "completed" [messageItem ["a", "bc"]]) }
        {}).1.map TurnEnvelope.said) := by
  rw [openai_stream_eq_iff freshSession "e" none none none 200 {} {} "" twoTexts_shows
    twoTexts_streams (by decide)]
  rintro ⟨hlength, -⟩
  revert hlength
  decide

end OpenAi

end Cxdb
