import Cxdb.OpenAiStreams

/-!
# The Slots of Streamed Tool Calls

The frames of a stream update tool calls: a delta by the index that it carries, an item by its
identifier. A delta whose index lies beyond the tool calls that are there makes the list grow up
to it, whatever the index, and the calls in between are nobody's. The blocks of the Anthropic
provider are kept in a map by index, where nothing of the kind can happen.

## Main results

* `absorbAll_toolCalls`: the tool calls after the frames of a stream are what their updates make.
* `inReach_iff`: every tool call has been addressed, after every update, exactly if no delta
  passes over a slot.
* `tool_calls_addressed`: the calls of the turn that is captured.
* `phantom_tool_calls`: a single delta with the index 1000000.
-/

namespace Cxdb

/-! ### The size of a payload -/

mutual

/-- The values in a value. A number is one of them, whatever it is. -/
def JsonValue.valueCount : JsonValue → ℕ
  | .array items => 1 + itemCount items
  | .object fields => 1 + fieldCount fields
  | _ => 1

def itemCount : List JsonValue → ℕ
  | [] => 0
  | v :: vs => v.valueCount + itemCount vs

def fieldCount : List (String × JsonValue) → ℕ
  | [] => 0
  | (_, v) :: fields => v.valueCount + fieldCount fields

end

theorem JsonValue.one_le_valueCount (v : JsonValue) : 1 ≤ v.valueCount := by
  cases v <;> simp [JsonValue.valueCount]

theorem valueCount_le_itemCount {v : JsonValue} {items : List JsonValue} (h : v ∈ items) :
    v.valueCount ≤ itemCount items := by
  induction items with
  | nil => cases h
  | cons w items ih =>
      rw [itemCount]
      rcases List.mem_cons.mp h with rfl | h
      · exact Nat.le_add_right _ _
      · exact (ih h).trans (Nat.le_add_left _ _)

theorem length_le_itemCount (items : List JsonValue) : items.length ≤ itemCount items := by
  induction items with
  | nil => exact le_rfl
  | cons v items ih =>
      have := v.one_le_valueCount
      rw [itemCount, List.length_cons]
      omega

/-- A field is smaller than its object. -/
theorem JsonValue.valueCount_get {v w : JsonValue} {key : String} (h : v.get key = some w) :
    w.valueCount ≤ v.valueCount := by
  cases v with
  | object fields =>
      have hfield : w.valueCount ≤ fieldCount fields := by
        induction fields with
        | nil => cases h
        | cons field fields ih =>
            obtain ⟨name, value⟩ := field
            rw [fieldCount]
            by_cases hname : key = name
            · rw [JsonValue.get, List.lookup_cons, hname, beq_self_eq_true] at h
              obtain rfl := Option.some.inj h
              exact Nat.le_add_right _ _
            · rw [JsonValue.get, List.lookup_cons, beq_eq_false_iff_ne.mpr hname] at h
              exact (ih h).trans (Nat.le_add_left _ _)
      rw [valueCount]
      omega
  | _ => cases h

/-- The items of a field are fewer than the values of its object. -/
theorem JsonValue.length_arrayField (v : JsonValue) (key : String) :
    ((v.arrayField key).getD []).length ≤ v.valueCount := by
  rw [arrayField]
  cases hget : v.get key with
  | none => exact Nat.zero_le _
  | some w =>
      have hle := valueCount_get hget
      cases w with
      | array items =>
          have hlength := length_le_itemCount items
          rw [valueCount] at hle
          simp only [Option.bind_some, asArray, Option.getD_some]
          omega
      | _ => exact Nat.zero_le _

namespace OpenAi

variable (serde : SerdeJson)

/-! ### Updates of tool calls -/

/-- What a frame does to the tool calls: a delta of a chat, or a function call among the items of
Responses. -/
inductive SlotUpdate where
  | delta (d : JsonValue)
  | item (i : JsonValue)

namespace SlotUpdate

variable (slots : List PartialToolCall)

def apply : SlotUpdate → List PartialToolCall
  | .delta d => absorbToolCallDelta serde slots d
  | .item i => if callIdOf i = "" then slots else absorbFunctionCall serde i slots

/-- The slot that an update addresses. -/
def slot : SlotUpdate → Option ℕ
  | .delta d => some (((indexOf d).map UInt64.toNat).getD slots.length)
  | .item i =>
      if callIdOf i = "" then none
      else some (slots.findIdx fun slot => slot.callId = callIdOf i)

/-- **No slot is passed over**: a delta that carries an index carries that of a slot there is, or
the next one. -/
def InReach : SlotUpdate → Prop
  | .delta d => ∀ index ∈ indexOf d, index.toNat ≤ slots.length
  | .item _ => True

end SlotUpdate

/-- The slots after some updates. -/
def applyAll (slots : List PartialToolCall) (us : List SlotUpdate) : List PartialToolCall :=
  us.foldl (fun slots u => u.apply serde slots) slots

/-- The slots that some updates address. -/
def addressed : List PartialToolCall → List SlotUpdate → List ℕ
  | _, [] => []
  | slots, u :: us => (u.slot slots).toList ++ addressed (u.apply serde slots) us

/-- None of the updates passes over a slot. -/
def InReach : List PartialToolCall → List SlotUpdate → Prop
  | _, [] => True
  | slots, u :: us => u.InReach slots ∧ InReach (u.apply serde slots) us

/-- The updates of an event. -/
def eventUpdates : ResponsesEvent → List SlotUpdate
  | .response response =>
      (((response.arrayField "output").getD []).filter (·.typeIs "function_call")).map .item
  | .textDelta _ => []
  | .item item => if item.typeIs "function_call" then [.item item] else []

/-- The updates of a chunk. -/
def chunkUpdates (payload : JsonValue) : List SlotUpdate :=
  match (firstChoice payload).bind (·.get "delta") with
  | none => []
  | some delta => ((delta.arrayField "tool_calls").getD []).map .delta

/-- The payload of a frame that has one. -/
def framePayload (frame : SseFrame) : Option JsonValue :=
  if trim frame.data = "[DONE]" then none else (serde.fromStr frame.data).toOption

/-- The updates of a payload. -/
def payloadUpdates (payload : JsonValue) : List SlotUpdate :=
  match strOf (payload.get "type") with
  | some eventType => (responsesEvent eventType payload).elim [] eventUpdates
  | none => chunkUpdates payload

/-- The tool-call deltas and function calls of a frame. -/
def frameUpdates (frame : SseFrame) : List SlotUpdate :=
  (framePayload serde frame).elim [] payloadUpdates

/-- How many values a frame carries. -/
def frameSize (frame : SseFrame) : ℕ :=
  (framePayload serde frame).elim 0 JsonValue.valueCount

variable {serde}

theorem applyAll_append (slots : List PartialToolCall) (us vs : List SlotUpdate) :
    applyAll serde slots (us ++ vs) = applyAll serde (applyAll serde slots us) vs :=
  List.foldl_append

theorem addressed_append (slots : List PartialToolCall) (us vs : List SlotUpdate) :
    addressed serde slots (us ++ vs) =
      addressed serde slots us ++ addressed serde (applyAll serde slots us) vs := by
  induction us generalizing slots with
  | nil => rfl
  | cons u us ih =>
      rw [List.cons_append, addressed, ih, addressed, List.append_assoc]
      rfl

theorem inReach_append (slots : List PartialToolCall) (us vs : List SlotUpdate) :
    InReach serde slots (us ++ vs) ↔
      InReach serde slots us ∧ InReach serde (applyAll serde slots us) vs := by
  induction us generalizing slots with
  | nil => exact (true_and _).symm ▸ Iff.rfl
  | cons u us ih =>
      rw [List.cons_append, InReach, ih, InReach, and_assoc]
      rfl

/-! ### Frames -/

/-- An item of Responses. -/
theorem absorbOutputItem_toolCalls (exchange : OpenAiExchange) (item : JsonValue) :
    (exchange.absorbOutputItem serde item).toolCalls =
      applyAll serde exchange.toolCalls
        (if item.typeIs "function_call" then [.item item] else []) := by
  rw [OpenAiExchange.absorbOutputItem]
  by_cases hmessage : item.typeIs "message"
  · have hcall : ¬ item.typeIs "function_call" = true := fun hcall =>
      absurd (JsonValue.typeIs_inj hmessage hcall) (by decide)
    rw [if_pos hmessage, if_neg hcall]
    split <;> rfl
  · rw [if_neg hmessage]
    by_cases hcall : item.typeIs "function_call"
    · rw [if_pos hcall, if_pos hcall]
      simp only [applyAll, List.foldl_cons, List.foldl_nil, SlotUpdate.apply]
      split <;> rfl
    · rw [if_neg hcall, if_neg hcall]
      rfl

theorem absorbOutput_toolCalls (exchange : OpenAiExchange) (response : JsonValue) :
    (exchange.absorbOutput serde response).toolCalls =
      applyAll serde exchange.toolCalls (eventUpdates (.response response)) := by
  rw [OpenAiExchange.absorbOutput, eventUpdates]
  cases response.arrayField "output" with
  | none => rfl
  | some items =>
      simp only [Option.getD_some]
      induction items generalizing exchange with
      | nil => rfl
      | cons item items ih =>
          rw [List.foldl_cons, ih, absorbOutputItem_toolCalls, ← applyAll_append]
          rw [List.filter_cons]
          split
          · rfl
          · rfl

theorem absorbResponsesEvent_toolCalls (exchange : OpenAiExchange) (event : ResponsesEvent) :
    (exchange.absorbResponsesEvent serde event).toolCalls =
      applyAll serde exchange.toolCalls (eventUpdates event) := by
  cases event with
  | response response => exact absorbOutput_toolCalls (exchange.noteResponse response) response
  | textDelta delta => rfl
  | item item => exact absorbOutputItem_toolCalls exchange item

theorem absorbChunk_toolCalls (exchange : OpenAiExchange) (payload : JsonValue) :
    (exchange.absorbChunk serde payload).toolCalls =
      applyAll serde exchange.toolCalls (chunkUpdates payload) := by
  rw [OpenAiExchange.absorbChunk, chunkUpdates]
  cases firstChoice payload with
  | none => rfl
  | some choice =>
      simp only [Option.bind_some]
      cases choice.get "delta" with
      | none => rfl
      | some delta =>
          simp only [OpenAiExchange.absorbDelta, applyAll, List.foldl_map]
          rfl

/-- **The tool calls after a frame** are what its updates make of those before it. -/
theorem absorbSseFrame_toolCalls (exchange : OpenAiExchange) (frame : SseFrame) :
    (exchange.absorbSseFrame serde frame).toolCalls =
      applyAll serde exchange.toolCalls (frameUpdates serde frame) := by
  rw [OpenAiExchange.absorbSseFrame, frameUpdates, framePayload]
  split
  · rfl
  cases serde.fromStr frame.data with
  | error err => rfl
  | ok payload =>
      simp only [Except.toOption, Option.elim_some, payloadUpdates]
      cases strOf (payload.get "type") with
      | none => exact absorbChunk_toolCalls exchange payload
      | some eventType =>
          cases hevent : responsesEvent eventType payload with
          | none => simp only [hevent]; rfl
          | some event =>
              simp only [hevent]
              exact absorbResponsesEvent_toolCalls exchange event

/-- **The tool calls after the frames of a stream.** -/
theorem absorbAll_toolCalls (exchange : OpenAiExchange) (frames : List SseFrame) :
    (exchange.absorbAll serde frames).toolCalls =
      applyAll serde exchange.toolCalls (frames.flatMap (frameUpdates serde)) := by
  induction frames generalizing exchange with
  | nil => rfl
  | cons frame frames ih =>
      rw [List.flatMap_cons, applyAll_append, ← absorbSseFrame_toolCalls, ← ih]
      rfl

/-! ### One update -/

variable {slots : List PartialToolCall} {u : SlotUpdate}

theorem length_absorbFunctionCall (item : JsonValue) (slots : List PartialToolCall) :
    (absorbFunctionCall serde item slots).length =
      max slots.length (slots.findIdx (fun slot => slot.callId = callIdOf item) + 1) := by
  induction slots with
  | nil => rfl
  | cons slot slots ih =>
      rw [absorbFunctionCall, List.findIdx_cons]
      by_cases hid : slot.callId = callIdOf item
      · simp [hid]
      · rw [if_neg hid, List.length_cons, ih]
        simp only [hid, decide_false, cond_false, List.length_cons]
        omega

/-- How many slots there are after an update: those there were, and up to the addressed one. -/
theorem length_apply (slots : List PartialToolCall) (u : SlotUpdate) :
    (u.apply serde slots).length = max slots.length ((u.slot slots).elim 0 (· + 1)) := by
  cases u with
  | delta d =>
      rw [SlotUpdate.apply, SlotUpdate.slot, absorbToolCallDelta, indexOf]
      simp only [List.length_modify, List.length_append, List.length_replicate, Option.elim_some]
      omega
  | item i =>
      rw [SlotUpdate.apply, SlotUpdate.slot]
      split
      · exact (Nat.max_eq_left (Nat.zero_le _)).symm
      · exact length_absorbFunctionCall i slots

/-- An update in reach addresses a slot there is, or the next one. -/
theorem SlotUpdate.InReach.slot_le (h : u.InReach slots) {n : ℕ} (hn : u.slot slots = some n) :
    n ≤ slots.length := by
  cases u with
  | delta d =>
      obtain rfl := Option.some.inj hn
      cases hindex : indexOf d with
      | none => exact le_rfl
      | some index => exact h index hindex
  | item i =>
      rw [SlotUpdate.slot] at hn
      split at hn
      · cases hn
      · obtain rfl := Option.some.inj hn
        exact List.findIdx_le_length

/-- Out of reach is a delta whose index is beyond the next slot. -/
theorem SlotUpdate.slot_of_not_inReach (h : ¬ u.InReach slots) :
    ∃ n, u.slot slots = some n ∧ slots.length < n := by
  cases u with
  | delta d =>
      cases hindex : indexOf d with
      | none =>
          refine absurd (fun index hmem => ?_) h
          rw [hindex] at hmem
          cases hmem
      | some index =>
          refine ⟨index.toNat, by rw [SlotUpdate.slot, hindex]; rfl, ?_⟩
          refine Nat.lt_of_not_le fun hle => h fun index' hmem => ?_
          rw [hindex] at hmem
          obtain rfl := Option.some.inj hmem
          exact hle
  | item i => exact absurd trivial h

/-- **An update in reach** makes one slot at most, which it addresses. -/
theorem SlotUpdate.InReach.apply (h : u.InReach slots) :
    (u.apply serde slots).length ≤ slots.length + 1 ∧
      ∀ n < (u.apply serde slots).length, n < slots.length ∨ u.slot slots = some n := by
  rw [length_apply]
  cases hslot : u.slot slots with
  | none => exact ⟨by simp, fun n hn => Or.inl (by simpa using hn)⟩
  | some m =>
      have hle := h.slot_le hslot
      simp only [Option.elim_some]
      refine ⟨by omega, fun n hn => ?_⟩
      rcases Nat.lt_or_ge n slots.length with hlt | hge
      · exact Or.inl hlt
      · exact Or.inr (congrArg some (by omega))

theorem getElem_absorbFunctionCall {item : JsonValue} {slots : List PartialToolCall} {n : ℕ}
    (hne : slots.findIdx (fun slot => slot.callId = callIdOf item) ≠ n) :
    n < slots.length → (absorbFunctionCall serde item slots)[n]? = slots[n]? := by
  induction slots generalizing n with
  | nil => exact fun hn => absurd hn (Nat.not_lt_zero n)
  | cons slot slots ih =>
      intro hn
      rw [absorbFunctionCall]
      rw [List.findIdx_cons] at hne
      by_cases hid : slot.callId = callIdOf item
      · simp only [hid, decide_true, cond_true] at hne
        obtain ⟨m, rfl⟩ := Nat.exists_eq_succ_of_ne_zero hne.symm
        rw [if_pos hid]
        rfl
      · rw [if_neg hid]
        simp only [hid, decide_false, cond_false] at hne
        cases n with
        | zero => rfl
        | succ n => exact ih (fun heq => hne (congrArg (· + 1) heq)) (Nat.lt_of_succ_lt_succ hn)

/-- **The other slots** stay as they are. -/
theorem getElem_apply_of_ne {n : ℕ} (hn : n < slots.length) (hne : u.slot slots ≠ some n) :
    (u.apply serde slots)[n]? = slots[n]? := by
  cases u with
  | delta d =>
      rw [SlotUpdate.slot, indexOf, Ne, Option.some.injEq] at hne
      rw [SlotUpdate.apply, absorbToolCallDelta]
      rw [List.getElem?_modify_ne _ _ hne, List.getElem?_append_left hn]
  | item i =>
      rw [SlotUpdate.slot] at hne
      rw [SlotUpdate.apply]
      split
      · rfl
      next hid =>
        rw [if_neg hid, Ne, Option.some.injEq] at hne
        exact getElem_absorbFunctionCall hne hn

/-! ### All updates -/

/-- **Every tool call has been addressed**, and there are no more than updates. -/
def Answered (serde : SerdeJson) (us : List SlotUpdate) : Prop :=
  (applyAll serde [] us).length ≤ us.length ∧
    ∀ n < (applyAll serde [] us).length, n ∈ addressed serde [] us

theorem length_applyAll_mono (slots : List PartialToolCall) (us : List SlotUpdate) :
    slots.length ≤ (applyAll serde slots us).length := by
  induction us generalizing slots with
  | nil => exact le_rfl
  | cons u us ih =>
      refine le_trans ?_ (ih (u.apply serde slots))
      rw [length_apply]
      exact Nat.le_max_left _ _

/-- No slot is addressed that there is not. -/
theorem lt_of_mem_addressed {us : List SlotUpdate} {n : ℕ} (h : n ∈ addressed serde slots us) :
    n < (applyAll serde slots us).length := by
  induction us generalizing slots with
  | nil => cases h
  | cons u us ih =>
      rw [addressed] at h
      rcases List.mem_append.mp h with h | h
      · refine Nat.lt_of_lt_of_le ?_ (length_applyAll_mono (u.apply serde slots) us)
        rw [length_apply, Option.mem_toList.mp h]
        simp
      · exact ih h

/-- **Updates in reach** make at most one slot each, and address all that they make. -/
theorem InReach.applyAll {us : List SlotUpdate} (h : InReach serde slots us) :
    (applyAll serde slots us).length ≤ slots.length + us.length ∧
      ∀ n < (OpenAi.applyAll serde slots us).length,
        n < slots.length ∨ n ∈ addressed serde slots us := by
  induction us generalizing slots with
  | nil => exact ⟨le_rfl, fun n hn => Or.inl hn⟩
  | cons u us ih =>
      obtain ⟨hu, hus⟩ := h
      obtain ⟨hlength, hstep⟩ := @SlotUpdate.InReach.apply serde _ _ hu
      obtain ⟨hall, hrun⟩ := ih hus
      refine ⟨hall.trans (by rw [List.length_cons]; omega), fun n hn => ?_⟩
      rcases hrun n hn with hbefore | hmem
      · refine (hstep n hbefore).imp_right fun hslot => ?_
        exact List.mem_append_left _ (Option.mem_toList.mpr hslot)
      · exact Or.inr (List.mem_append_right _ hmem)

/-- **A delta that passes over a slot** leaves it behind, addressed by none. -/
theorem not_addressed_of_not_inReach {us : List SlotUpdate}
    (h : ¬ u.InReach (applyAll serde [] us)) :
    (applyAll serde [] us).length < (applyAll serde [] (us ++ [u])).length ∧
      (applyAll serde [] us).length ∉ addressed serde [] (us ++ [u]) := by
  obtain ⟨n, hslot, hlt⟩ := SlotUpdate.slot_of_not_inReach h
  refine ⟨?_, fun hmem => ?_⟩
  · rw [applyAll_append]
    change _ < (u.apply serde (applyAll serde [] us)).length
    rw [length_apply, hslot, Option.elim_some]
    omega
  · rw [addressed_append] at hmem
    rcases List.mem_append.mp hmem with hmem | hmem
    · exact Nat.lt_irrefl _ (lt_of_mem_addressed hmem)
    · rw [addressed, hslot] at hmem
      simp only [addressed, List.append_nil, Option.toList_some, List.mem_singleton] at hmem
      omega

/-- **Every tool call has been addressed after every update** exactly if none passes over a
slot. -/
theorem inReach_iff (us : List SlotUpdate) :
    InReach serde [] us ↔ ∀ vs ws, us = vs ++ ws → Answered serde vs := by
  constructor
  · rintro h vs ws rfl
    obtain ⟨hlength, hall⟩ := ((inReach_append _ _ _).mp h).1.applyAll
    refine ⟨by simpa using hlength, fun n hn => ?_⟩
    exact (hall n hn).resolve_left (Nat.not_lt_zero n)
  · intro h
    induction us using List.reverseRecOn with
    | nil => trivial
    | append_singleton us u ih =>
        have hus : InReach serde [] us :=
          ih fun vs ws heq => h vs (ws ++ [u]) (by rw [heq, List.append_assoc])
        refine (inReach_append _ _ _).mpr ⟨hus, by_contra fun hno => ?_⟩
        have hu : ¬ u.InReach (applyAll serde [] us) := fun hu => hno ⟨hu, trivial⟩
        obtain ⟨hlt, hmem⟩ := not_addressed_of_not_inReach hu
        exact hmem ((h (us ++ [u]) [] (List.append_nil _).symm).2 _ hlt)

/-! ### The size of a frame -/

theorem length_eventUpdates {payload : JsonValue} {eventType : String} {event : ResponsesEvent}
    (h : responsesEvent eventType payload = some event) :
    (eventUpdates event).length ≤ payload.valueCount := by
  have hone := payload.one_le_valueCount
  rw [responsesEvent] at h
  split at h
  · obtain ⟨response, hget, rfl⟩ := Option.map_eq_some_iff.mp h
    rw [eventUpdates, List.length_map]
    exact (List.length_filter_le _ _).trans
      ((response.length_arrayField "output").trans (JsonValue.valueCount_get hget))
  split at h
  · obtain ⟨delta, -, rfl⟩ := Option.map_eq_some_iff.mp h
    exact Nat.zero_le _
  split at h
  · obtain ⟨item, -, rfl⟩ := Option.map_eq_some_iff.mp h
    rw [eventUpdates]
    split
    · exact hone
    · exact Nat.zero_le _
  · cases h

theorem length_chunkUpdates (payload : JsonValue) :
    (chunkUpdates payload).length ≤ payload.valueCount := by
  rw [chunkUpdates, firstChoice, JsonValue.arrayField]
  cases hchoices : payload.get "choices" with
  | none => exact Nat.zero_le _
  | some choices =>
      have hle := JsonValue.valueCount_get hchoices
      cases choices with
      | array items =>
          cases items with
          | nil => exact Nat.zero_le _
          | cons choice items =>
              have hchoice : choice.valueCount ≤ itemCount (choice :: items) :=
                valueCount_le_itemCount List.mem_cons_self
              rw [JsonValue.valueCount] at hle
              simp only [Option.bind_some, JsonValue.asArray, List.head?_cons]
              cases hdelta : choice.get "delta" with
              | none => exact Nat.zero_le _
              | some delta =>
                  have hdelta' := JsonValue.valueCount_get hdelta
                  have hcalls := delta.length_arrayField "tool_calls"
                  simp only [List.length_map]
                  omega
      | _ => exact Nat.zero_le _

/-- **A frame has no more updates than values.** -/
theorem length_frameUpdates (frame : SseFrame) :
    (frameUpdates serde frame).length ≤ frameSize serde frame := by
  rw [frameUpdates, frameSize]
  cases framePayload serde frame with
  | none => exact le_rfl
  | some payload =>
      simp only [Option.elim_some, payloadUpdates]
      cases strOf (payload.get "type") with
      | none => exact length_chunkUpdates payload
      | some eventType =>
          cases hevent : responsesEvent eventType payload with
          | none => simp [hevent]
          | some event =>
              simp only [hevent, Option.elim_some]
              exact length_eventUpdates hevent

/-! ### The turn that is captured -/

/-- The updates of the frames of a stream. -/
def streamUpdates (serde : SerdeJson) (frames : List SseFrame) : List SlotUpdate :=
  frames.flatMap (frameUpdates serde)

/-- **No phantom calls.** The tool calls of a turn that is made of the frames of a stream are no
more than their updates, each of them has been addressed by one, and no frame makes the list of
tool calls longer than by its own size. -/
structure CallsAddressed (serde : SerdeJson) (exchangeId : String) (model : Option String)
    (frames : List SseFrame) : Prop where
  finalized (session : SessionRuntime) (status : ℕ) (requestId : Option String)
    (artifacts : ArtifactRefs) (malformedRemainder : Option String) :
    ∀ turn ∈ (finalizeStream session ((OpenAiExchange.new exchangeId model).absorbAll serde frames)
      status requestId artifacts malformedRemainder).1,
    ∀ text calls turnModel finishReason,
      turn.item.body = .history (.assistantTurn text calls turnModel finishReason) →
        calls.length ≤ (streamUpdates serde frames).length ∧
        ∀ n < calls.length, n ∈ addressed serde [] (streamUpdates serde frames)
  bounded (before : List SseFrame) (frame : SseFrame) (after : List SseFrame) :
    frames = before ++ frame :: after →
      ((OpenAiExchange.new exchangeId model).absorbAll serde (before ++ [frame])).toolCalls.length ≤
        ((OpenAiExchange.new exchangeId model).absorbAll serde before).toolCalls.length +
          frameSize serde frame

/-- The tool calls of a turn are those that have been gathered. -/
theorem length_of_mem_finalizeStream {session : SessionRuntime} {exchange : OpenAiExchange}
    {status : ℕ} {requestId : Option String} {artifacts : ArtifactRefs}
    {malformedRemainder : Option String} {turn : TurnEnvelope}
    (h : turn ∈ (finalizeStream session exchange status requestId artifacts malformedRemainder).1)
    {text : String} {calls : List ToolCallRecord} {model finishReason : Option String}
    (hbody : turn.item.body = .history (.assistantTurn text calls model finishReason)) :
    calls.length = exchange.toolCalls.length := by
  have herror {title message : String} (h : turn ∈ (errorTurn session exchange title message
      requestId artifacts).1) : calls.length = exchange.toolCalls.length := by
    rw [List.mem_singleton.mp h] at hbody
    cases hbody
  rw [finalizeStream] at h
  split at h
  · exact herror h
  split at h
  · exact herror h
  split at h
  · exact herror h
  split at h
  · cases h
  · rw [List.mem_singleton.mp h] at hbody
    cases hbody
    exact List.length_map _

theorem new_absorbAll_toolCalls (exchangeId : String) (model : Option String)
    (frames : List SseFrame) :
    ((OpenAiExchange.new exchangeId model).absorbAll serde frames).toolCalls =
      applyAll serde [] (streamUpdates serde frames) :=
  absorbAll_toolCalls _ _

theorem callsAddressed_of_inReach (exchangeId : String) (model : Option String)
    {frames : List SseFrame} (h : InReach serde [] (streamUpdates serde frames)) :
    CallsAddressed serde exchangeId model frames where
  finalized session status requestId artifacts malformedRemainder turn hturn text calls turnModel
      finishReason hbody := by
    have hanswered := (inReach_iff _).mp h _ [] (List.append_nil _).symm
    rw [length_of_mem_finalizeStream hturn hbody, new_absorbAll_toolCalls]
    exact hanswered
  bounded before frame after heq := by
    have hsplit : streamUpdates serde frames =
        streamUpdates serde before ++ (frameUpdates serde frame ++ streamUpdates serde after) := by
      rw [heq, streamUpdates, List.flatMap_append, List.flatMap_cons]
      rfl
    have hframe : streamUpdates serde (before ++ [frame]) =
        streamUpdates serde before ++ frameUpdates serde frame := by
      rw [streamUpdates, List.flatMap_append, List.flatMap_singleton]
      rfl
    rw [hsplit] at h
    have hreach := ((inReach_append _ _ _).mp ((inReach_append _ _ _).mp h).2).1
    rw [new_absorbAll_toolCalls, new_absorbAll_toolCalls, hframe, applyAll_append]
    exact hreach.applyAll.1.trans (Nat.add_le_add_left (length_frameUpdates frame) _)

/-- **The tool calls of a stream.** Where no delta passes over a slot, the captured turn has no
tool call that nothing has addressed, and what a frame costs is bounded by its size. And only
there has every tool call been addressed after each of the updates. -/
theorem tool_calls_addressed (serde : SerdeJson) (exchangeId : String) (model : Option String)
    (frames : List SseFrame) :
    (InReach serde [] (streamUpdates serde frames) →
      CallsAddressed serde exchangeId model frames) ∧
    (InReach serde [] (streamUpdates serde frames) ↔
      ∀ us vs, streamUpdates serde frames = us ++ vs → Answered serde us) :=
  ⟨callsAddressed_of_inReach exchangeId model, inReach_iff _⟩

/-- A chunk with one delta, whose index is 1000000. -/
def farChunk : JsonValue :=
  .object [("choices", .array [.object [("delta", .object [("tool_calls",
    .array [.object [("index", .number (.posInt 1000000))]])])]])]

theorem farChunk_frame :
    ∃ frame, framesOf [farChunk] = [frame] ∧ frameSize (reading [farChunk]) frame = 7 ∧
      frameUpdates (reading [farChunk]) frame =
        [.delta (.object [("index", .number (.posInt 1000000))])] := by
  refine ⟨_, rfl, ?_⟩
  have hpayload : framePayload (reading [farChunk])
      { event := none, data := farChunk.text writer, raw := "" } = some farChunk := by
    rw [framePayload, if_neg (by decide),
      fromStr_reading (by simp) (List.mem_singleton_self _)]
    rfl
  rw [frameSize, frameUpdates, hpayload]
  exact ⟨by decide, rfl⟩

/-- **A million phantom calls**: one delta with a far index makes that many. -/
theorem phantom_tool_calls :
    ((OpenAiExchange.new "e" none).absorbAll (reading [farChunk])
        (framesOf [farChunk])).toolCalls.length = 1000001 ∧
      (streamUpdates (reading [farChunk]) (framesOf [farChunk])).length = 1 ∧
      ¬ CallsAddressed (reading [farChunk]) "e" none (framesOf [farChunk]) := by
  obtain ⟨frame, hframes, hsize, hupdates⟩ := farChunk_frame
  have hstream : streamUpdates (reading [farChunk]) (framesOf [farChunk]) =
      [.delta (.object [("index", .number (.posInt 1000000))])] := by
    rw [hframes, streamUpdates, List.flatMap_singleton, hupdates]
  have hlength : ((OpenAiExchange.new "e" none).absorbAll (reading [farChunk])
      (framesOf [farChunk])).toolCalls.length = 1000001 := by
    rw [new_absorbAll_toolCalls, hstream, applyAll, List.foldl_cons, List.foldl_nil, length_apply]
    rfl
  refine ⟨hlength, by rw [hstream]; rfl, fun h => ?_⟩
  have hbounded := h.bounded [] frame [] hframes
  rw [List.nil_append, ← hframes, hlength, hsize] at hbounded
  have hnone : ((OpenAiExchange.new "e" none).absorbAll (reading [farChunk]) []).toolCalls.length =
      0 := rfl
  omega

end OpenAi

end Cxdb
