import Cxdb.Anthropic

/-!
# Streamed and Complete Messages

A stream of the Anthropic provider opens every block of a message and fills it piece by piece.
The turn that is made of its frames has the text of the message, but the arguments of a tool
stand behind those of the empty object that opened its block, so that they are right only for a
tool that gets none.

## Main results

* `AnthropicExchange.lookup_absorbAll`: what becomes of a block is up to its own frames.
* `Streams.sortedBlocks_eq`: the accumulator's blocks after the stream of a message.
* `anthropic_stream_eq_iff`: the stream of a message makes the turn of the complete message
  exactly when it streams no input and there is a block.
* `streamed_input_differs`: a tool whose arguments differ.
-/

open IterationOrder TextPieces

namespace Cxdb

namespace Anthropic

variable (serde : SerdeJson)

/-! ### Frames -/

/-- What a frame does to the block that it names. -/
def frameEvent (frame : SseFrame) : Option (UInt64 × BlockEvent) :=
  match serde.fromStr frame.data with
  | .error _ => none
  | .ok payload => blockEvent frame.event payload

/-- What the frames do to a block. -/
def eventsAt (index : UInt64) (frames : List SseFrame) : List BlockEvent :=
  frames.filterMap fun frame =>
    (frameEvent serde frame).bind fun (i, event) => if i = index then some event else none

namespace AnthropicExchange

/-- The exchange after the frames of a stream. -/
def absorbAll (exchange : AnthropicExchange) (frames : List SseFrame) : AnthropicExchange :=
  frames.foldl (·.absorbSseFrame serde) exchange

variable {serde} {exchange : AnthropicExchange}

theorem lookup_setBlock (i index : UInt64) (event : BlockEvent) :
    (exchange.setBlock serde i event).blocks.lookup index =
      if i = index then event.apply serde (exchange.blocks.lookup index)
      else exchange.blocks.lookup index := by
  rw [setBlock]
  by_cases hi : i = index
  · subst hi
    cases happly : event.apply serde (exchange.blocks.lookup i) with
    | some block => simp
    | none =>
        -- An event makes a block, or there was none.
        have hnone : exchange.blocks.lookup i = none := by
          cases hold : exchange.blocks.lookup i with
          | none => rfl
          | some old =>
              rw [hold] at happly
              cases event with
              | start block =>
                  rw [BlockEvent.apply] at happly
                  cases hs : startBlock serde block <;> simp [hs] at happly
              | delta d =>
                  rw [BlockEvent.apply] at happly
                  split at happly
                  · cases happly
                  · split at happly <;> cases happly
        simp [hnone]
  · cases event.apply serde (exchange.blocks.lookup i) with
    | some block => simp [hi, Ne.symm hi]
    | none => simp [hi]

theorem lookup_absorb (frame : SseFrame) (index : UInt64) :
    (exchange.absorbSseFrame serde frame).blocks.lookup index =
      (eventsAt serde index [frame]).foldl (fun old event => event.apply serde old)
        (exchange.blocks.lookup index) := by
  rw [absorbSseFrame, eventsAt, List.filterMap_cons, List.filterMap_nil, frameEvent]
  cases serde.fromStr frame.data with
  | error err => rfl
  | ok payload =>
      simp only
      split
      next hevent =>
        have hnone : blockEvent frame.event payload = none := by simp [blockEvent, hevent]
        rw [hnone, startMessage]
        split <;> rfl
      next hevent =>
        have hnone : blockEvent frame.event payload = none := by simp [blockEvent, hevent]
        rw [hnone, changeMessage]
        split <;> rfl
      · cases blockEvent frame.event payload with
        | none => rfl
        | some p =>
            obtain ⟨i, event⟩ := p
            simp only [lookup_setBlock, Option.bind_some]
            split <;> rfl

/-- **What becomes of a block is up to its own frames.** -/
theorem lookup_absorbAll (frames : List SseFrame) (index : UInt64) :
    (exchange.absorbAll serde frames).blocks.lookup index =
      (eventsAt serde index frames).foldl (fun old event => event.apply serde old)
        (exchange.blocks.lookup index) := by
  induction frames generalizing exchange with
  | nil => rfl
  | cons frame frames ih =>
      have hsplit : eventsAt serde index (frame :: frames) =
          eventsAt serde index [frame] ++ eventsAt serde index frames := by
        rw [eventsAt, eventsAt, eventsAt, ← List.filterMap_append, List.singleton_append]
      rw [absorbAll, List.foldl_cons, ← absorbAll, ih, hsplit, List.foldl_append, lookup_absorb]

theorem parseErrors_absorbAll {frames : List SseFrame}
    (h : ∀ frame ∈ frames, ∃ payload, serde.fromStr frame.data = .ok payload) :
    (exchange.absorbAll serde frames).parseErrors = exchange.parseErrors := by
  induction frames generalizing exchange with
  | nil => rfl
  | cons frame frames ih =>
      rw [absorbAll, List.foldl_cons, ← absorbAll, ih fun f hf => h f (List.mem_cons_of_mem _ hf)]
      obtain ⟨payload, hpayload⟩ := h frame List.mem_cons_self
      rw [absorbSseFrame, hpayload]
      simp only
      split
      · rw [startMessage]
        split <;> rfl
      · rw [changeMessage]
        split <;> rfl
      · split
        · rw [setBlock]
          split <;> rfl
        · rfl

end AnthropicExchange

/-! ### Messages and their streams -/

/-- A block of an assistant's message. -/
inductive Block where
  | text (s : String)
  | toolUse (id name : String) (input : List (String × JsonValue))

/-- The value is the block, in a complete message. -/
def Block.Shows : Block → JsonValue → Prop
  | .text s, v => v.typeIs "text" ∧ v.strField "text" = s
  | .toolUse id name input, v => v.typeIs "tool_use" ∧ v.strField "id" = id ∧
      v.strField "name" = name ∧ v.get "input" = some (.object input)

/-- The pieces of input that are streamed, one after another. -/
def streamedInput (events : List BlockEvent) : String :=
  concat (events.map fun
    | .start _ => ""
    | .delta d => if d.typeIs "input_json_delta" then d.strField "partial_json" else "")

/-- The events are the block: it is opened, a tool with an empty input, and then its text or its
input comes in pieces. An empty input may come in none. -/
def Block.StreamsAs : Block → List BlockEvent → Prop
  | .text s, events => ∃ (v : JsonValue) (deltas : List JsonValue),
      events = .start v :: deltas.map .delta ∧
      v.typeIs "text" ∧ (∀ d ∈ deltas, d.typeIs "text_delta") ∧
      v.strField "text" ++ concat (deltas.map (·.strField "text")) = s
  | .toolUse id name input, events => ∃ (v : JsonValue) (deltas : List JsonValue),
      events = .start v :: deltas.map .delta ∧
      v.typeIs "tool_use" ∧ v.strField "id" = id ∧ v.strField "name" = name ∧
      v.get "input" = some (.object []) ∧ (∀ d ∈ deltas, d.typeIs "input_json_delta") ∧
      (streamedInput events = (JsonValue.object input).text serde ∨
        input = [] ∧ streamedInput events = "")

/-- The frames stream the message. The frames of different blocks may come in any order, and
other frames between them. -/
structure Streams (blocks : List Block) (frames : List SseFrame) : Prop where
  readable : ∀ frame ∈ frames, ∃ payload, serde.fromStr frame.data = .ok payload
  indexed : blocks.length ≤ 2 ^ 64
  block : ∀ (i : ℕ) (block : Block), blocks[i]? = some block →
    block.StreamsAs serde (eventsAt serde (UInt64.ofNat i) frames)
  only : ∀ index : UInt64, blocks.length ≤ index.toNat → eventsAt serde index frames = []

/-- What is streamed as the input of a block. -/
def Block.Input : Block → String → Prop
  | .text _, streamed => streamed = ""
  | .toolUse _ _ input, streamed =>
      streamed = (JsonValue.object input).text serde ∨ input = [] ∧ streamed = ""

/-- The frame brings a piece of input that is not empty. -/
def BringsInput (frame : SseFrame) : Prop :=
  ∃ index d, frameEvent serde frame = some (index, .delta d) ∧ d.typeIs "input_json_delta" ∧
    d.strField "partial_json" ≠ ""

/-- What the accumulator makes of a block with this input. -/
def Block.finished : Block → String → PartialBlock
  | .text s, _ => .text s
  | .toolUse id name _, streamed =>
      .toolUse { id, name, inputJson := "\x7b\x7d" ++ streamed }

variable {serde}

/-- The pieces of a text. -/
theorem foldl_text {deltas : List JsonValue} (h : ∀ d ∈ deltas, d.typeIs "text_delta")
    (value : String) :
    (deltas.map BlockEvent.delta).foldl (fun old event => event.apply serde old)
        (some (.text value)) =
      some (.text (value ++ concat (deltas.map (·.strField "text")))) := by
  induction deltas generalizing value with
  | nil => simp [concat]
  | cons d deltas ih =>
      have hd := h d List.mem_cons_self
      rw [List.map_cons, List.foldl_cons, BlockEvent.apply, if_pos hd]
      simp only [Option.getD_some, pushText]
      rw [ih (fun d' hd' => h d' (List.mem_cons_of_mem _ hd')), List.map_cons, concat,
        String.append_assoc]

/-- The pieces of an input. -/
theorem foldl_input {deltas : List JsonValue} (h : ∀ d ∈ deltas, d.typeIs "input_json_delta")
    (tool : PartialToolUse) :
    (deltas.map BlockEvent.delta).foldl (fun old event => event.apply serde old)
        (some (.toolUse tool)) =
      some (.toolUse { tool with
        inputJson := tool.inputJson ++ streamedInput (deltas.map .delta) }) := by
  induction deltas generalizing tool with
  | nil => simp [streamedInput, concat]
  | cons d deltas ih =>
      have hd := h d List.mem_cons_self
      have hne : ¬ d.typeIs "text_delta" := fun ht => by simpa using JsonValue.typeIs_inj ht hd
      rw [List.map_cons, List.foldl_cons, BlockEvent.apply, if_neg hne, if_pos hd]
      simp only [Option.getD_some, pushInput]
      rw [ih (fun d' hd' => h d' (List.mem_cons_of_mem _ hd')), streamedInput, streamedInput,
        List.map_cons, concat]
      simp only [hd, if_true, String.append_assoc]

/-- **A block that is streamed** is finished with what has been streamed for it. -/
theorem Block.StreamsAs.fold {block : Block} {events : List BlockEvent}
    (h : block.StreamsAs serde events) :
    events.foldl (fun old event => event.apply serde old) none =
      some (block.finished (streamedInput events)) := by
  cases block with
  | text s =>
      obtain ⟨v, deltas, rfl, hv, hdeltas, hs⟩ := h
      have hstart : startBlock serde v = some (.text (v.strField "text")) := by
        rw [startBlock, if_pos hv]
      rw [List.foldl_cons, BlockEvent.apply, hstart]
      exact (foldl_text hdeltas _).trans (by rw [hs, Block.finished])
  | toolUse id name input =>
      obtain ⟨v, deltas, rfl, hv, rfl, rfl, hinput, hdeltas, -⟩ := h
      have hne : ¬ v.typeIs "text" := fun ht => by simpa using JsonValue.typeIs_inj ht hv
      have hstart : startBlock serde v = some (.toolUse
          { id := v.strField "id", name := v.strField "name", inputJson := "\x7b\x7d" }) := by
        rw [startBlock, if_neg hne, if_pos hv, inputText, hinput, Option.map_some,
          Option.getD_some, jsonishToString_object, text_emptyObject]
      rw [List.foldl_cons, BlockEvent.apply, hstart]
      refine (foldl_input hdeltas _).trans ?_
      rw [Block.finished, streamedInput, streamedInput, List.map_cons, concat, String.empty_append]

/-! ### All blocks -/

/-- The blocks of the accumulator, for what has been streamed for each of them. -/
def finishedBlocks (blocks : List Block) (streamed : ℕ → String) : List PartialBlock :=
  blocks.mapIdx fun i block => block.finished (streamed i)

theorem finishedBlocks_cons (block : Block) (blocks : List Block) (streamed : ℕ → String) :
    finishedBlocks (block :: blocks) streamed =
      block.finished (streamed 0) :: finishedBlocks blocks fun i => streamed (i + 1) :=
  List.mapIdx_cons

theorem finishedBlocks_eq_nil {blocks : List Block} {streamed : ℕ → String} :
    finishedBlocks blocks streamed = [] ↔ blocks = [] := List.mapIdx_eq_nil_iff

theorem Block.StreamsAs.input {block : Block} {events : List BlockEvent}
    (h : block.StreamsAs serde events) : block.Input serde (streamedInput events) := by
  cases block with
  | text s =>
      obtain ⟨v, deltas, rfl, -, hdeltas, -⟩ := h
      have hpieces : ∀ d ∈ deltas, ¬ d.typeIs "input_json_delta" := fun d hd ht => by
        simpa using JsonValue.typeIs_inj (hdeltas d hd) ht
      rw [Block.Input, streamedInput, concat_eq_empty]
      simpa using fun d hd ht => absurd ht (hpieces d hd)
  | toolUse id name input =>
      obtain ⟨v, deltas, -, -, -, -, -, -, hinput⟩ := h
      exact hinput

theorem toolCallRecord_of_shows {id name : String} {input : List (String × JsonValue)}
    {item : JsonValue} (h : (Block.toolUse id name input).Shows item) :
    toolCallRecord serde item =
      { callId := id, name := name, args := (JsonValue.object input).text serde } := by
  obtain ⟨-, hid, hname, hfield⟩ := h
  rw [toolCallRecord, inputText, hid, hname, hfield, Option.map_some, Option.getD_some,
    jsonishToString_object]

/-- The texts of a message, one after another. -/
def blocksText (blocks : List Block) : String :=
  concat (blocks.map fun
    | .text s => s
    | .toolUse _ _ _ => "")

variable (serde) in
/-- The tool calls of a message. -/
def blocksCalls (blocks : List Block) : List ToolCallRecord :=
  blocks.filterMap fun
    | .text _ => none
    | .toolUse id name input =>
        some { callId := id, name := name, args := (JsonValue.object input).text serde }

theorem contentText_of_shows {blocks : List Block} {items : List JsonValue}
    (h : List.Forall₂ Block.Shows blocks items) : contentText items = blocksText blocks := by
  induction h with
  | nil => rfl
  | @cons block item blocks items hshows _ ih =>
      rw [contentText, ih, blocksText, blocksText, List.map_cons, concat]
      cases block with
      | text s => rw [if_pos hshows.1, hshows.2]
      | toolUse id name input =>
          have hne : ¬ item.typeIs "text" := fun ht => by
            simpa using JsonValue.typeIs_inj ht hshows.1
          rw [if_neg hne, String.empty_append]

theorem contentToolCalls_of_shows {blocks : List Block} {items : List JsonValue}
    (h : List.Forall₂ Block.Shows blocks items) :
    contentToolCalls serde items = blocksCalls serde blocks := by
  induction h with
  | nil => rfl
  | @cons block item blocks items hshows _ ih =>
      rw [contentToolCalls] at ih ⊢
      cases block with
      | text s =>
          have hne : ¬ item.typeIs "tool_use" := fun ht => by
            simpa using JsonValue.typeIs_inj hshows.1 ht
          rw [List.filter_cons_of_neg (by simpa using hne), ih]
          rfl
      | toolUse id name input =>
          rw [List.filter_cons_of_pos (by simpa using hshows.1), List.map_cons, ih,
            toolCallRecord_of_shows hshows]
          rfl

/-- The accumulator's texts are those of the message. -/
theorem blockTexts_finishedBlocks (blocks : List Block) (streamed : ℕ → String) :
    blockTexts (finishedBlocks blocks streamed) = blocksText blocks := by
  induction blocks generalizing streamed with
  | nil => rfl
  | cons block blocks ih =>
      rw [finishedBlocks_cons, blocksText, List.map_cons, concat, ← blocksText]
      cases block with
      | text s => rw [Block.finished, blockTexts, ih]
      | toolUse id name input => rw [Block.finished, blockTexts, ih, String.empty_append]

/-- The arguments of a tool are right when nothing has been streamed for them. -/
theorem args_eq_iff {id name : String} {input : List (String × JsonValue)} {streamed : String}
    (h : Block.Input serde (.toolUse id name input) streamed) :
    "\x7b\x7d" ++ streamed = (JsonValue.object input).text serde ↔ streamed = "" := by
  rcases h with rfl | ⟨rfl, rfl⟩
  · constructor
    · intro h
      have hlen := congrArg String.length h
      rw [String.length_append] at hlen
      simp at hlen
    · intro h
      have hlen := congrArg String.length h
      rw [JsonValue.text, String.length_append, String.length_append] at hlen
      simp at hlen
  · simp [text_emptyObject]

/-- **The accumulator's tool calls** are those of the message when no input has been streamed. -/
theorem blockToolCalls_finishedBlocks {blocks : List Block} {streamed : ℕ → String}
    (hinput : ∀ (i : ℕ) (block : Block), blocks[i]? = some block →
      block.Input serde (streamed i)) :
    blockToolCalls (finishedBlocks blocks streamed) = blocksCalls serde blocks ↔
      ∀ i < blocks.length, streamed i = "" := by
  induction blocks generalizing streamed with
  | nil => simp [finishedBlocks, blockToolCalls, blocksCalls]
  | cons block blocks ih =>
      have hhead := hinput 0 block rfl
      have htail := ih fun i b hb => hinput (i + 1) b hb
      have hsplit : (∀ i < (block :: blocks).length, streamed i = "") ↔
          streamed 0 = "" ∧ ∀ i < blocks.length, streamed (i + 1) = "" := by
        constructor
        · exact fun hall => ⟨hall 0 (by simp), fun i hi => hall (i + 1) (by simpa using hi)⟩
        · rintro ⟨h0, hrest⟩ (_ | i) hi
          · exact h0
          · exact hrest i (by simpa using hi)
      rw [finishedBlocks_cons, hsplit, ← htail]
      cases block with
      | text s => exact ⟨fun h => ⟨hhead, h⟩, And.right⟩
      | toolUse id name input =>
          rw [Block.finished, blockToolCalls, blocksCalls, List.filterMap_cons, ← blocksCalls,
            List.cons.injEq]
          simp [args_eq_iff hhead]

/-! ### The accumulator -/

namespace Streams

variable {blocks : List Block} {frames : List SseFrame}

/-- No input is streamed for any block, or some frame brings it. -/
theorem input_iff (h : Streams serde blocks frames) :
    (∀ i < blocks.length, streamedInput (eventsAt serde (UInt64.ofNat i) frames) = "") ↔
      ∀ frame ∈ frames, ¬ BringsInput serde frame := by
  constructor
  · rintro hall frame hframe ⟨index, d, hevent, htype, hne⟩
    have hmem : .delta d ∈ eventsAt serde index frames :=
      List.mem_filterMap.mpr ⟨frame, hframe, by simp [hevent]⟩
    have hindex : index.toNat < blocks.length := by
      by_contra hle
      rw [h.only index (not_lt.mp hle)] at hmem
      cases hmem
    have hempty := hall index.toNat hindex
    rw [UInt64.ofNat_toNat, streamedInput, concat_eq_empty] at hempty
    exact hne (by simpa [htype] using hempty _ (List.mem_map_of_mem hmem))
  · intro hnone i _
    rw [streamedInput, concat_eq_empty]
    intro s hs
    obtain ⟨event, hevent, rfl⟩ := List.mem_map.mp hs
    obtain ⟨frame, hframe, hat⟩ := List.mem_filterMap.mp hevent
    obtain ⟨⟨index, event'⟩, hfe, hif⟩ := Option.bind_eq_some_iff.mp hat
    obtain ⟨-, hif⟩ := Option.ite_none_right_eq_some.mp hif
    obtain rfl := Option.some.inj hif
    cases event' with
    | start v => rfl
    | delta d =>
        simp only
        split
        next htype => exact not_not.mp fun hne => hnone frame hframe ⟨index, d, hfe, htype, hne⟩
        · rfl

/-- What the accumulator has at an index. -/
theorem lookup_eq (h : Streams serde blocks frames) (exchangeId : String)
    (model : Option String) (index : UInt64) :
    ((AnthropicExchange.new exchangeId model).absorbAll serde frames).blocks.lookup index =
      blocks[index.toNat]?.map (·.finished (streamedInput (eventsAt serde index frames))) := by
  rw [AnthropicExchange.lookup_absorbAll,
    show (AnthropicExchange.new exchangeId model).blocks.lookup index = none from rfl]
  cases hblock : blocks[index.toNat]? with
  | none => rw [h.only index (List.getElem?_eq_none_iff.mp hblock)]; rfl
  | some block =>
      have hstreams := h.block index.toNat block hblock
      rw [UInt64.ofNat_toNat] at hstreams
      exact hstreams.fold

/-- **The blocks of the accumulator** are the message's, with what has been streamed for each. -/
theorem sortedBlocks_eq (h : Streams serde blocks frames) (exchangeId : String)
    (model : Option String) :
    ((AnthropicExchange.new exchangeId model).absorbAll serde frames).sortedBlocks =
      finishedBlocks blocks fun i => streamedInput (eventsAt serde (UInt64.ofNat i) frames) := by
  have hlookup := h.lookup_eq exchangeId model
  have htoNat : ∀ i < blocks.length, (UInt64.ofNat i).toNat = i := fun i hi =>
    UInt64.toNat_ofNat_of_lt' (lt_of_lt_of_le hi h.indexed)
  have hlists : Lists ((AnthropicExchange.new exchangeId model).absorbAll serde frames).blocks.keys
      ((List.range blocks.length).map UInt64.ofNat) := by
    constructor
    · refine List.Nodup.map_on (fun i hi j hj hij => ?_) List.nodup_range
      rw [← htoNat i (List.mem_range.mp hi), hij, htoNat j (List.mem_range.mp hj)]
    · intro index
      rw [Finmap.mem_keys, Finmap.mem_iff]
      simp only [hlookup, Option.map_eq_some_iff, List.mem_map, List.mem_range]
      constructor
      · rintro ⟨i, hi, rfl⟩
        rw [htoNat i hi]
        exact ⟨_, blocks[i], List.getElem?_eq_getElem hi, rfl⟩
      · rintro ⟨_, block, hblock, -⟩
        exact ⟨index.toNat, (List.getElem?_eq_some_iff.mp hblock).1, UInt64.ofNat_toNat⟩
  have hpairwise : ((List.range blocks.length).map UInt64.ofNat).Pairwise (· ≤ ·) := by
    rw [List.pairwise_map]
    refine List.Pairwise.imp_of_mem (fun hi hj hij => ?_) List.pairwise_lt_range
    rw [UInt64.le_iff_toNat_le, htoNat _ (List.mem_range.mp hi), htoNat _ (List.mem_range.mp hj)]
    exact hij.le
  let finishedAt (index : UInt64) : PartialBlock :=
    (blocks[index.toNat]?.map
      (·.finished (streamedInput (eventsAt serde index frames)))).getD (.text "")
  rw [AnthropicExchange.sortedBlocks, sorted_eq_of_pairwise _ hlists hpairwise,
    map_snd_entriesIn (f := finishedAt), finishedBlocks]
  · refine List.ext_getElem? fun i => ?_
    simp only [List.map_map, List.getElem?_map, List.getElem?_mapIdx, finishedAt]
    by_cases hi : i < blocks.length
    · simp [List.getElem?_range hi, htoNat i hi, List.getElem?_eq_getElem hi]
    · simp [not_lt.mp hi]
  · intro index hindex
    obtain ⟨i, hi, rfl⟩ := List.mem_map.mp hindex
    have hi := List.mem_range.mp hi
    simp [hlookup, finishedAt, htoNat i hi, List.getElem?_eq_getElem hi]

variable (serde) in
/-- The tool calls that the accumulator makes of the blocks. -/
def gatheredCalls (blocks : List Block) (frames : List SseFrame) : List ToolCallRecord :=
  blockToolCalls (finishedBlocks blocks fun i =>
    streamedInput (eventsAt serde (UInt64.ofNat i) frames))

/-- They are those of the message when no frame brings input. -/
theorem calls_eq_iff (h : Streams serde blocks frames) :
    gatheredCalls serde blocks frames = blocksCalls serde blocks ↔
      ∀ frame ∈ frames, ¬ BringsInput serde frame := by
  rw [gatheredCalls, blockToolCalls_finishedBlocks fun i block hblock =>
    (h.block i block hblock).input, h.input_iff]

/-- **What the accumulator says**, when there is a block. -/
theorem said_item (h : Streams serde blocks frames) (exchangeId : String)
    (model : Option String) :
    ((AnthropicExchange.new exchangeId model).absorbAll serde frames).item.map HistoryItem.said =
      if blocks = [] then none
      else some (some (blocksText blocks, gatheredCalls serde blocks frames)) := by
  rw [AnthropicExchange.item]
  simp only [h.sortedBlocks_eq, blockTexts_finishedBlocks, finishedBlocks_eq_nil]
  split <;> rfl

end Streams

/-! ### The two turns -/

/-- **The stream of a message makes the turn of the complete message** exactly when there is a
block and no input is streamed. -/
theorem anthropic_stream_eq_iff (session : SessionRuntime) (exchangeId : String)
    (model requestId requestId' : Option String) (status : ℕ) (artifacts artifacts' : ArtifactRefs)
    (lossy : String) {blocks : List Block} {items : List JsonValue} {payload : JsonValue}
    {frames : List SseFrame} (hitems : List.Forall₂ Block.Shows blocks items)
    (hpayload : payload.get "content" = some (.array items))
    (hframes : Streams serde blocks frames) (hstatus : status < 400) :
    (finalizeStream session ((AnthropicExchange.new exchangeId model).absorbAll serde frames)
        status requestId artifacts none).1.map TurnEnvelope.said =
      (finalizeJson serde session (.new exchangeId model) status requestId'
        { lossy := lossy, json := .ok payload } artifacts').1.map TurnEnvelope.said ↔
      blocks ≠ [] ∧ ∀ frame ∈ frames, ¬ BringsInput serde frame := by
  have hcomplete : (finalizeJson serde session (.new exchangeId model) status requestId'
        { lossy := lossy, json := .ok payload } artifacts').1.map TurnEnvelope.said =
      [some (blocksText blocks, blocksCalls serde blocks)] := by
    rw [finalizeJson_eq session _ requestId' artifacts' hstatus rfl hpayload, said_capture,
      contentText_of_shows hitems, contentToolCalls_of_shows hitems]
    rfl
  rw [hcomplete, finalizeStream_eq session requestId artifacts hstatus
    (AnthropicExchange.parseErrors_absorbAll hframes.readable), said_capture, hframes.said_item]
  split
  next hempty => simp [hempty]
  next hne => simp [hne, hframes.calls_eq_iff]

/-! ### A tool with arguments -/

/-- The field of a tool's block, with this input. -/
def searchTool (input : List (String × JsonValue)) : JsonValue :=
  .object [("id", .string "t"), ("input", .object input), ("name", .string "search"),
    ("type", .string "tool_use")]

def startFrame : SseFrame where
  event := some "content_block_start"
  data := "\x7b\"content_block\":\x7b\"id\":\"t\",\"input\":\x7b\x7d,\"name\":\"search\"," ++
    "\"type\":\"tool_use\"\x7d,\"index\":0\x7d"
  raw := ""

def inputFrame : SseFrame where
  event := some "content_block_delta"
  data := "\x7b\"delta\":\x7b\"partial_json\":\"\x7b\\\"q\\\":true\x7d\"," ++
    "\"type\":\"input_json_delta\"\x7d,\"index\":0\x7d"
  raw := ""

/-- `serde_json` on these two frames. -/
def toolSerde : SerdeJson where
  fromStr data :=
    if data = startFrame.data then
      .ok (.object [("content_block", searchTool []), ("index", .number (.posInt 0))])
    else if data = inputFrame.data then
      .ok (.object [("delta", .object [("partial_json", .string "\x7b\"q\":true\x7d"),
        ("type", .string "input_json_delta")]), ("index", .number (.posInt 0))])
    else .error "expected value at line 1 column 1"
  doubleText _ := "0.0"

/-- The message with that tool. -/
def toolMessage : JsonValue :=
  .object [("content", .array [searchTool [("q", .bool true)]])]

/-- That tool, as a block of its message. -/
def toolBlock : Block := .toolUse "t" "search" [("q", .bool true)]

theorem toolBlock_shows : List.Forall₂ Block.Shows [toolBlock] [searchTool [("q", .bool true)]] :=
  .cons ⟨by decide, by decide, by decide, rfl⟩ .nil

theorem frameEvent_startFrame :
    frameEvent toolSerde startFrame = some (0, .start (searchTool [])) := rfl

theorem frameEvent_inputFrame :
    frameEvent toolSerde inputFrame = some (0, .delta (.object
      [("partial_json", .string "\x7b\"q\":true\x7d"), ("type", .string "input_json_delta")])) :=
  rfl

theorem toolBlock_streams : Streams toolSerde [toolBlock] [startFrame, inputFrame] where
  readable := by
    intro frame hframe
    rcases List.mem_pair.mp hframe with rfl | rfl
    · exact ⟨_, rfl⟩
    · exact ⟨_, rfl⟩
  indexed := by decide
  block := by
    rintro (_ | i) block hblock
    · obtain rfl : toolBlock = block := by simpa using hblock
      exact ⟨searchTool [], [_], rfl, by decide, by decide, by decide, rfl, by decide,
        .inl (by decide)⟩
    · simp at hblock
  only := by
    intro index hindex
    have hne : ¬ (0 : UInt64) = index := fun h => by simp [← h] at hindex
    simp [eventsAt, frameEvent_startFrame, frameEvent_inputFrame, hne]

/-- **A tool whose arguments differ.** The pieces stand behind the empty object. -/
theorem streamed_input_differs :
    (finalizeStream freshSession
        ((AnthropicExchange.new "e" none).absorbAll toolSerde [startFrame, inputFrame]) 200 none
        {} none).1.map TurnEnvelope.said =
      [some ("", [⟨"t", "search", "\x7b\x7d\x7b\"q\":true\x7d"⟩])] ∧
    (finalizeJson toolSerde freshSession (.new "e" none) 200 none
        { lossy := "", json := .ok toolMessage } {}).1.map TurnEnvelope.said =
      [some ("", [⟨"t", "search", "\x7b\"q\":true\x7d"⟩])] ∧
    List.Forall₂ Block.Shows [toolBlock] [searchTool [("q", .bool true)]] ∧
    Streams toolSerde [toolBlock] [startFrame, inputFrame] :=
  ⟨by decide, by decide, toolBlock_shows, toolBlock_streams⟩

/-- The turns of that message and its stream are not the same. -/
theorem anthropic_stream_eq_iff_search :
    ¬ ((finalizeStream freshSession
        ((AnthropicExchange.new "e" none).absorbAll toolSerde [startFrame, inputFrame]) 200 none
        {} none).1.map TurnEnvelope.said =
      (finalizeJson toolSerde freshSession (.new "e" none) 200 none
        { lossy := "", json := .ok toolMessage } {}).1.map TurnEnvelope.said) := by
  rw [anthropic_stream_eq_iff freshSession "e" none none none 200 {} {} "" toolBlock_shows rfl
    toolBlock_streams (by decide)]
  exact fun h => h.2 inputFrame (by simp) ⟨0, _, frameEvent_inputFrame, by decide, by decide⟩

end Anthropic

end Cxdb
