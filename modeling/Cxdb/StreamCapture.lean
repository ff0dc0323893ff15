import Cxdb.BlankLines
import Cxdb.Exchanges
import Cxdb.Utf8Chunks

/-!
# Capturing a Stream

`stream_response` of `proxy.rs`, `parse_sse_buffer` and `parse_block`: the chunks of a response
are decoded one by one, the frames that are complete are taken up by the exchange, and what is
left at the end of the stream is an error of its own. The ledger and the client that the chunks
are passed on to are left out, but for the paths that the ledger gives.

## Main results

* `captureAll_eq`: the chunks matter only by what is decoded of them.
* `capture_chunk_invariant`: what is captured does not depend on the chunks if and only if no
  chunk ends inside a character, but for characters of blocks without data.
* `cut_character_changes_frame`: a character that is cut is lost.
-/

open ByteFormat TextPieces BlankLines Utf8Chunks

namespace Cxdb

/-! ### Frames -/

def isCr (c : Char) : Bool := c = '\r'

def isLf (c : Char) : Bool := c = '\n'

/-- `strip_prefix`. -/
def stripPrefix (pre s : List Char) : Option (List Char) :=
  if pre.isPrefixOf s then some (s.drop pre.length) else none

/-- The event and the data lines so far, with another line. -/
def blockLine (s : Option String × List String) (line : List Char) :
    Option String × List String :=
  match stripPrefix "event:".toList line with
  | some value => (some (trim (String.ofList value)), s.2)
  | none =>
      match stripPrefix "data:".toList line with
      | some value => (s.1, s.2 ++ [trimStart (String.ofList value)])
      | none => s

def parseBlock (block : List Char) : Option SseFrame :=
  let s := (lines isCr isLf block).foldl blockLine (none, [])
  if s.2 = [] then none
  else some { event := s.1, data := joinLines s.2, raw := String.ofList block }

/-- `parse_sse_buffer`: the frames, and the new buffer. -/
def parseSseBuffer (buffer : List Char) : List SseFrame × List Char :=
  let c := cut isLf (joinCrLf isCr isLf buffer)
  (c.blocks.filterMap fun block => parseBlock (trimEnd isLf block), c.rest)

/-! ### Capturing -/

/-- What the task of a stream keeps. -/
structure StreamState where
  parseBuffer : List Char
  frames : List SseFrame
  exchange : ExchangeState

/-- What is left of a stream, if it is not blank. -/
def leftover (buffer : String) : Option String := if trim buffer = "" then none else some buffer

section Capture

variable (serde : SerdeJson)

/-- The next chunk. -/
def StreamState.absorbChunk (s : StreamState) (chunk : Bytes) : StreamState :=
  let (frames, parseBuffer) := parseSseBuffer (s.parseBuffer ++ lossy chunk)
  { parseBuffer
    frames := s.frames ++ frames
    exchange := s.exchange.absorbAll serde frames }

def captureAll (exchange : ExchangeState) (chunks : List Bytes) : StreamState :=
  chunks.foldl (·.absorbChunk serde) { parseBuffer := [], frames := [], exchange }

/-- What is around a stream: the exchange and its session, the head of the response, and the
paths of its artifacts. -/
structure StreamContext where
  exchange : ExchangeState
  session : SessionRuntime
  status : ℕ
  requestId : Option String
  artifacts : ArtifactRefs
  streamPath : String
  responsePath : String

/-- The artifacts of a stream: its frames have one as soon as there is one. -/
def StreamContext.refs (x : StreamContext) (frames : List SseFrame) : ArtifactRefs :=
  { x.artifacts with
    streamPath := if frames.isEmpty then x.artifacts.streamPath else some x.streamPath
    responsePath := some x.responsePath }

/-- `stream_response`: the frames, the turns, and the session. -/
def streamResponse (x : StreamContext) (chunks : List Bytes) :
    List SseFrame × List TurnEnvelope × SessionRuntime :=
  let s := captureAll serde x.exchange chunks
  let buffer := String.ofList s.parseBuffer
  (s.frames, s.exchange.finalizeStream x.session x.status x.requestId (x.refs s.frames)
    (leftover buffer))

end Capture

variable {serde : SerdeJson}

/-- The frames and the buffer of a text that has been decoded in parts. -/
theorem captureAll_eq (exchange : ExchangeState) (chunks : List Bytes) :
    captureAll serde exchange chunks =
      let s := feedAll isCr isLf (chunks.map lossy)
      let frames := s.1.filterMap fun block => parseBlock (trimEnd isLf block)
      { parseBuffer := s.2, frames, exchange := exchange.absorbAll serde frames } := by
  induction chunks using List.reverseRecOn with
  | nil => rfl
  | append_singleton chunks chunk ih =>
      rw [captureAll, List.foldl_append, List.foldl_cons, List.foldl_nil]
      change (captureAll serde exchange chunks).absorbChunk serde chunk = _
      rw [ih, List.map_append, List.map_singleton, feedAll_concat]
      simp only [StreamState.absorbChunk, parseSseBuffer, feed, List.filterMap_append,
        ExchangeState.absorbAll, List.foldl_append]

/-! ### Data lines -/

/-- What a line adds to the data, if anything. -/
def dataValue (line : List Char) : Option String :=
  match stripPrefix "event:".toList line with
  | some _ => none
  | none => (stripPrefix "data:".toList line).map fun value => trimStart (String.ofList value)

theorem foldl_blockLine (ls : List (List Char)) (s : Option String × List String) :
    (ls.foldl blockLine s).2 = s.2 ++ ls.filterMap dataValue := by
  induction ls generalizing s with
  | nil => simp
  | cons line ls ih =>
      rw [List.foldl_cons, ih, List.filterMap_cons, blockLine, dataValue]
      cases stripPrefix "event:".toList line with
      | some value => rfl
      | none => cases stripPrefix "data:".toList line <;> simp

/-- A block makes a frame if it has a data line. -/
theorem parseBlock_isSome (block : List Char) :
    (parseBlock block).isSome ↔ ∃ line ∈ lines isCr isLf block, (dataValue line).isSome := by
  have hnil : (parseBlock block).isSome ↔
      (lines isCr isLf block).filterMap dataValue ≠ [] := by
    rw [parseBlock, foldl_blockLine, List.nil_append]
    split_ifs with h <;> simp [h]
  rw [hnil, ne_eq, List.filterMap_eq_nil_iff]
  simp [Option.isSome_iff_ne_none]

theorem parseBlock_raw {block : List Char} {frame : SseFrame} (h : parseBlock block = some frame) :
    frame.raw = String.ofList block := by
  rw [parseBlock] at h
  split_ifs at h
  obtain rfl := Option.some.inj h
  rfl

/-! ### Pieces -/

/-- A word of ASCII begins what is seen of a text if it begins the text. -/
theorem isPrefixOf_seen {word : List Char} (hword : ∀ c ∈ word, c.toNat ≤ 127) (ps : List Piece) :
    word.isPrefixOf (ps.flatMap Piece.seen) = word.isPrefixOf (ps.map Piece.char) := by
  induction word generalizing ps with
  | nil => rfl
  | cons a word ih =>
      have ha : a.val ≤ 127 := UInt32.le_iff_toNat_le.mpr (hword a List.mem_cons_self)
      cases ps with
      | nil => rfl
      | cons p ps =>
          rw [List.flatMap_cons, List.map_cons]
          cases hp : p.isCut with
          | false =>
              rw [p.seen_of_uncut hp, List.singleton_append, List.isPrefixOf_cons_cons,
                List.isPrefixOf_cons_cons, ih fun c hc => hword c (List.mem_cons_of_mem _ hc)]
          | true =>
              obtain ⟨k, hk⟩ := p.seen_of_cut hp
              have hchar : a ≠ p.char := fun h => UInt32.not_lt.mpr ha (h ▸ p.lt_of_cut hp)
              have hseen : a ≠ replacement := by
                rintro rfl
                revert ha
                decide
              rw [hk, List.replicate_succ, List.cons_append, List.isPrefixOf_cons_cons,
                List.isPrefixOf_cons_cons]
              rw [beq_false_of_ne hseen, beq_false_of_ne hchar]
              rfl

theorem stripPrefix_isSome (pre s : List Char) :
    (stripPrefix pre s).isSome = pre.isPrefixOf s := by
  rw [stripPrefix]
  cases pre.isPrefixOf s <;> rfl

theorem dataValue_isSome (line : List Char) :
    (dataValue line).isSome =
      (!"event:".toList.isPrefixOf line && "data:".toList.isPrefixOf line) := by
  rw [dataValue, ← stripPrefix_isSome, ← stripPrefix_isSome]
  cases stripPrefix "event:".toList line with
  | some value => rfl
  | none => cases stripPrefix "data:".toList line <;> rfl

/-- The data lines are the same. -/
theorem dataValue_seen (ps : List Piece) :
    (dataValue (ps.flatMap Piece.seen)).isSome = (dataValue (ps.map Piece.char)).isSome := by
  rw [dataValue_isSome, dataValue_isSome, isPrefixOf_seen (by simp), isPrefixOf_seen (by simp)]

theorem isLf_disjoint (c : Char) (h : isLf c = true) : isCr c = false := by
  rw [isLf, decide_eq_true_eq] at h
  subst h
  rfl

/-- What is seen of a text has its line ends. -/
theorem renders_seen :
    Renders (fun p : Piece => isCr p.char) (fun p : Piece => isLf p.char) isCr isLf
      Piece.seen := by
  have hcut : ∀ p : Piece, p.isCut = true → isCr p.char = false ∧ isLf p.char = false := by
    intro p hp
    have hlt := p.lt_of_cut hp
    constructor
    · refine decide_eq_false fun h => ?_
      rw [h] at hlt
      exact absurd hlt (by decide)
    · refine decide_eq_false fun h => ?_
      rw [h] at hlt
      exact absurd hlt (by decide)
  have hreplaced : ∀ k c, c ∈ List.replicate (k + 2) replacement →
      isCr c = false ∧ isLf c = false := by
    intro k c hc
    rw [List.eq_of_mem_replicate hc]
    decide
  refine ⟨fun p => ?_, fun p hp => ?_, fun p hp => ?_, fun p hp => ?_, fun p hp => ?_⟩
  · cases hcut : p.isCut with
    | false => simp [p.seen_of_uncut hcut]
    | true =>
        obtain ⟨k, hk⟩ := p.seen_of_cut hcut
        simp [hk]
  · cases hc : p.isCut with
    | false => exact ⟨p.char, p.seen_of_uncut hc, hp⟩
    | true => exact absurd hp (by rw [(hcut p hc).2]; decide)
  · cases hc : p.isCut with
    | false =>
        rw [p.seen_of_uncut hc]
        rintro c hmem
        rw [List.mem_singleton.mp hmem]
        exact hp
    | true =>
        obtain ⟨k, hk⟩ := p.seen_of_cut hc
        exact fun c hmem => (hreplaced k c (hk ▸ hmem)).2
  · cases hc : p.isCut with
    | false => exact ⟨p.char, p.seen_of_uncut hc, hp⟩
    | true => exact absurd hp (by rw [(hcut p hc).1]; decide)
  · cases hc : p.isCut with
    | false =>
        rw [p.seen_of_uncut hc]
        rintro c hmem
        rw [List.mem_singleton.mp hmem]
        exact hp
    | true =>
        obtain ⟨k, hk⟩ := p.seen_of_cut hc
        exact fun c hmem => (hreplaced k c (hk ▸ hmem)).1

/-- A character that is cut is seen as several. -/
theorem le_length_seen (ps : List Piece) :
    ps.length + (ps.filter Piece.isCut).length ≤ (ps.flatMap Piece.seen).length := by
  induction ps with
  | nil => exact Nat.zero_le _
  | cons p ps ih =>
      rw [List.flatMap_cons, List.length_append, List.length_cons]
      cases hp : p.isCut with
      | false =>
          rw [List.filter_cons_of_neg (by simp [hp]), p.seen_of_uncut hp, List.length_singleton]
          omega
      | true =>
          obtain ⟨k, hk⟩ := p.seen_of_cut hp
          rw [List.filter_cons_of_pos hp, hk, List.length_cons, List.length_replicate]
          omega

/-- What is seen is the text if no character is cut. -/
theorem seen_eq_iff (ps : List Piece) :
    ps.map Piece.char = ps.flatMap Piece.seen ↔ ∀ p ∈ ps, p.isCut = false := by
  constructor
  · intro h
    have hlen := le_length_seen ps
    rw [← h, List.length_map] at hlen
    have hnil : ps.filter Piece.isCut = [] := List.length_eq_zero_iff.mp (by omega)
    simpa using List.filter_eq_nil_iff.mp hnil
  · intro h
    rw [List.map_eq_flatMap]
    exact List.flatMap_congr fun p hp => (p.seen_of_uncut (h p hp)).symm

/-- A text is its pieces. -/
theorem renders_char :
    Renders (fun p : Piece => isCr p.char) (fun p : Piece => isLf p.char) isCr isLf
      fun p => [p.char] :=
  .of_map Piece.char (fun _ => rfl) fun _ => rfl

/-- A block makes a frame if what is seen of it does. -/
theorem parseBlock_seen_isSome (ps : List Piece) :
    (parseBlock (ps.flatMap Piece.seen)).isSome = (parseBlock (ps.map Piece.char)).isSome := by
  have hlines : lines isCr isLf (ps.map Piece.char) =
      (lines (fun p : Piece => isCr p.char) (fun p => isLf p.char) ps).map (·.map Piece.char) := by
    have h := renders_char.lines ps
    simpa only [← List.map_eq_flatMap] using h
  rw [Bool.eq_iff_iff, parseBlock_isSome, parseBlock_isSome, renders_seen.lines, hlines]
  simp only [List.mem_map, exists_exists_and_eq_and, dataValue_seen]

/-- **Frames of a block.** They are the same if no character is cut, or there is none. -/
theorem parseBlock_seen_iff (ps : List Piece) :
    parseBlock (ps.flatMap Piece.seen) = parseBlock (ps.map Piece.char) ↔
      ((parseBlock (ps.map Piece.char)).isSome → ∀ p ∈ ps, p.isCut = false) := by
  constructor
  · intro h hsome
    obtain ⟨frame, hframe⟩ := Option.isSome_iff_exists.mp hsome
    have hraw := (parseBlock_raw hframe).symm.trans (parseBlock_raw (h.trans hframe))
    rw [← seen_eq_iff]
    exact String.ofList_injective hraw
  · intro h
    cases hsome : (parseBlock (ps.map Piece.char)).isSome with
    | true => rw [(seen_eq_iff ps).mpr (h hsome)]
    | false =>
        have hseen := parseBlock_seen_isSome ps
        rw [hsome] at hseen
        rw [Option.isSome_eq_false_iff, Option.isNone_iff_eq_none] at hsome hseen
        rw [hsome, hseen]

theorem filterMap_eq_iff {α β : Type} {f g : α → Option β} {l : List α}
    (h : ∀ x ∈ l, (f x).isSome = (g x).isSome) :
    l.filterMap f = l.filterMap g ↔ ∀ x ∈ l, f x = g x := by
  induction l with
  | nil => simp
  | cons x l ih =>
      have hx := h x List.mem_cons_self
      rw [List.forall_mem_cons, ← ih fun y hy => h y (List.mem_cons_of_mem _ hy),
        List.filterMap_cons, List.filterMap_cons]
      cases hf : f x <;> cases hg : g x <;> simp_all

/-! ### Chunks -/

/-- No chunk ends inside a character of a block that makes a frame, or of what is left at the
end of the stream. -/
def CutsHarmless (chunks : List Bytes) (text : List Char) : Prop :=
  let isLfHere := fun m : Char × Bool => isLf m.1
  let c := cut isLfHere (joinCrLf (fun m => isCr m.1) isLfHere (marked (cutsFrom 0 chunks) 0 text))
  (∀ block ∈ c.blocks, (parseBlock ((trimEnd isLfHere block).map Prod.fst)).isSome →
    ∀ m ∈ trimEnd isLfHere block, m.2 = false) ∧ ∀ m ∈ c.rest, m.2 = false

instance (chunks : List Bytes) (text : List Char) : Decidable (CutsHarmless chunks text) :=
  inferInstanceAs (Decidable (_ ∧ _))

/-- What is left of a stream, with the message of its error. -/
def ExchangeState.leftover (state : ExchangeState) (remainder : String) : String :=
  match state with
  | .openAi _ => "OpenAI stream ended with leftover buffer: " ++ remainder
  | .anthropic _ => "Anthropic stream ended with leftover buffer: " ++ remainder

theorem leftover_inj {state : ExchangeState} {s t : String}
    (h : state.leftover s = state.leftover t) : s = t := by
  cases state <;> exact (String.append_right_inj _).mp h

/-- Something that is left of a stream makes an error of its own. -/
theorem finalizeStream_leftover (state : ExchangeState) (session : SessionRuntime) (status : ℕ)
    (requestId : Option String) (artifacts : ArtifactRefs) {remainder : String}
    (h : trim remainder ≠ "") :
    (state.finalizeStream session status requestId artifacts (some remainder)).1.map
        (fun turn => turn.item.body) =
      [.providerError "malformed_sse_remainder" (state.leftover remainder) requestId
        artifacts] := by
  cases state with
  | openAi state =>
      rw [ExchangeState.finalizeStream, OpenAi.finalizeStream,
        Option.filter_some_pos (by simpa using h)]
      rfl
  | anthropic state =>
      rw [ExchangeState.finalizeStream, Anthropic.finalizeStream,
        Option.filter_some_pos (by simpa using h)]
      rfl

/-- Nothing else makes this error. -/
theorem finalizeStream_none (state : ExchangeState) (session : SessionRuntime) (status : ℕ)
    (requestId : Option String) (artifacts : ArtifactRefs) (message : String) :
    (state.finalizeStream session status requestId artifacts none).1.map
        (fun turn => turn.item.body) ≠
      [.providerError "malformed_sse_remainder" message requestId artifacts] := by
  cases state with
  | openAi state =>
      rw [ExchangeState.finalizeStream, OpenAi.finalizeStream, Option.filter_none]
      dsimp only
      split_ifs <;>
        simp [OpenAi.errorTurn, OpenAi.itemTurn, SessionRuntime.providerErrorTurn,
          SessionRuntime.turn, SessionRuntime.appendHistoryItem, nextTurn]
  | anthropic state =>
      rw [ExchangeState.finalizeStream, Anthropic.finalizeStream, Option.filter_none]
      dsimp only
      split_ifs <;>
        simp [Anthropic.errorTurn, Anthropic.itemTurn, SessionRuntime.providerErrorTurn,
          SessionRuntime.turn, SessionRuntime.appendHistoryItem, nextTurn]

/-- A text with something that is no white space is not blank. -/
theorem trim_ne_empty {cs : List Char} {c : Char} (hc : c ∈ cs)
    (hspace : UnicodeTables.isWhitespace c = false) : trim (String.ofList cs) ≠ "" := by
  have hdrop : ∀ l : List Char, c ∈ l → c ∈ l.dropWhile UnicodeTables.isWhitespace := by
    intro l hl
    rw [← List.takeWhile_append_dropWhile (p := UnicodeTables.isWhitespace) (l := l)] at hl
    refine (List.mem_append.mp hl).resolve_left fun htake => ?_
    rw [List.mem_takeWhile_imp htake] at hspace
    cases hspace
  have hmem : c ∈ (cs.dropWhile UnicodeTables.isWhitespace).rdropWhile
      UnicodeTables.isWhitespace := by
    rw [List.rdropWhile, List.mem_reverse]
    exact hdrop _ (List.mem_reverse.mpr (hdrop _ hc))
  rw [trim, String.toList_ofList]
  intro h
  rw [String.ofList_eq_empty_iff.mp h] at hmem
  exact List.not_mem_nil hmem

/-- **The turns of a stream** tell what is left of it, when one has a replacement character. -/
theorem finalizeStream_eq_iff (state : ExchangeState) (session : SessionRuntime) (status : ℕ)
    (requestId : Option String) (artifacts : ArtifactRefs) {buffer seen : List Char}
    (hseen : seen ≠ buffer → replacement ∈ seen) :
    state.finalizeStream session status requestId artifacts (leftover (String.ofList seen)) =
        state.finalizeStream session status requestId artifacts
          (leftover (String.ofList buffer)) ↔
      seen = buffer := by
  constructor
  · intro h
    by_contra hne
    have htrim : trim (String.ofList seen) ≠ "" := trim_ne_empty (hseen hne) (by decide)
    have hbodies := congrArg
      (fun r : List TurnEnvelope × SessionRuntime => r.1.map fun turn => turn.item.body) h
    rw [leftover, if_neg htrim, finalizeStream_leftover state session status requestId artifacts
      htrim] at hbodies
    by_cases hbuffer : trim (String.ofList buffer) = ""
    · rw [leftover, if_pos hbuffer] at hbodies
      exact finalizeStream_none state session status requestId artifacts _ hbodies.symm
    · rw [leftover, if_neg hbuffer, finalizeStream_leftover state session status requestId
        artifacts hbuffer] at hbodies
      have hbody := (List.cons.inj hbodies).1
      injection hbody with _ hmessage
      exact hne (String.ofList_injective (leftover_inj hmessage))
  · rintro rfl
    rfl

/-- **What is captured does not depend on the chunks**, if and only if no chunk ends inside a
character, but for characters of blocks without data. The text has line ends of either kind. -/
theorem capture_chunk_invariant (serde : SerdeJson) (x : StreamContext) (text : List Char)
    (chunks : List Bytes) (htext : CrLf isCr isLf text) (hchunks : chunks.flatten = encode text) :
    streamResponse serde x chunks = streamResponse serde x [encode text] ↔
      CutsHarmless chunks text := by
  obtain ⟨ps, hmarked, hseen⟩ := exists_pieces hchunks
  have hchars : ps.map Piece.char = text := by
    rw [← marked_map_fst (cutsFrom 0 chunks) 0 text, ← hmarked, List.map_map]
    rfl
  let isCrHere := fun p : Piece => isCr p.char
  let isLfHere := fun p : Piece => isLf p.char
  have hclean : CrLf isCrHere isLfHere ps :=
    .of_map (f := Piece.char) (fun _ => rfl) (fun _ => rfl) (hchars ▸ htext)
  have hdisjoint : ∀ p : Piece, isLfHere p = true → isCrHere p = false :=
    fun p => isLf_disjoint p.char
  obtain ⟨c, hc⟩ : ∃ c, c = cut isLfHere (joinCrLf isCrHere isLfHere ps) := ⟨_, rfl⟩
  -- what is seen, the text and its marks are cut in the same places
  have hfeed : feedAll isCr isLf (chunks.map lossy) =
      (c.blocks.map (·.flatMap Piece.seen), c.rest.flatMap Piece.seen) := by
    have hflatten : (chunks.map lossy).flatten = ps.flatMap Piece.seen := by
      rw [← List.flatMap_def, hseen]
    rw [feedAll_eq isLf_disjoint _ (hflatten ▸ renders_seen.crLf hclean), hflatten,
      renders_seen.joinCrLf hdisjoint isLf_disjoint hclean, renders_seen.cut, hc]
  have hwhole : feedAll isCr isLf ([encode text].map lossy) =
      (c.blocks.map (·.map Piece.char), c.rest.map Piece.char) := by
    have hdecoded : lossy (encode text) = text := by
      have h := lossy_encode text []
      rwa [List.append_nil, lossy_nil, List.append_nil] at h
    have hflatten : ([encode text].map lossy).flatten = ps.flatMap fun p => [p.char] := by
      rw [List.map_singleton, hdecoded, List.flatten_singleton, ← hchars, List.map_eq_flatMap]
    rw [feedAll_eq isLf_disjoint _ (hflatten ▸ renders_char.crLf hclean), hflatten,
      renders_char.joinCrLf hdisjoint isLf_disjoint hclean, renders_char.cut, hc]
    simp only [← List.map_eq_flatMap]
    rfl
  have hharmless : CutsHarmless chunks text ↔
      (∀ block ∈ c.blocks, (parseBlock ((trimEnd isLfHere block).map Piece.char)).isSome →
        ∀ p ∈ trimEnd isLfHere block, p.isCut = false) ∧ ∀ p ∈ c.rest, p.isCut = false := by
    have hmarks : Renders isCrHere isLfHere (fun m : Char × Bool => isCr m.1)
        (fun m : Char × Bool => isLf m.1) fun p : Piece => [(p.char, p.isCut)] :=
      .of_map (fun p : Piece => (p.char, p.isCut)) (fun _ => rfl) fun _ => rfl
    have hcut := hmarks.cut (joinCrLf isCrHere isLfHere ps)
    rw [← hmarks.joinCrLf hdisjoint (fun m => isLf_disjoint m.1) hclean] at hcut
    simp only [← List.map_eq_flatMap, hmarked, ← hc] at hcut
    have htrim := fun block => hmarks.trimEnd block
    simp only [← List.map_eq_flatMap] at htrim
    rw [CutsHarmless, hcut]
    simp only [List.forall_mem_map, htrim, List.map_map]
    rfl
  have hframes :
      (c.blocks.map (·.flatMap Piece.seen)).filterMap (fun b => parseBlock (trimEnd isLf b)) =
          (c.blocks.map (·.map Piece.char)).filterMap (fun b => parseBlock (trimEnd isLf b)) ↔
        ∀ block ∈ c.blocks, (parseBlock ((trimEnd isLfHere block).map Piece.char)).isSome →
          ∀ p ∈ trimEnd isLfHere block, p.isCut = false := by
    have htrim : ∀ block : List Piece, trimEnd isLf (block.map Piece.char) =
        (trimEnd isLfHere block).map Piece.char := by
      intro block
      have h := renders_char.trimEnd block
      simpa only [← List.map_eq_flatMap] using h
    rw [List.filterMap_map, List.filterMap_map, filterMap_eq_iff fun block _ => ?_]
    · refine forall₂_congr fun block _ => ?_
      simp only [Function.comp_apply, renders_seen.trimEnd, htrim]
      exact parseBlock_seen_iff _
    · simp only [Function.comp_apply, renders_seen.trimEnd, htrim, parseBlock_seen_isSome]
      rfl
  have hrest : c.rest.flatMap Piece.seen = c.rest.map Piece.char ↔
      ∀ p ∈ c.rest, p.isCut = false := eq_comm.trans (seen_eq_iff c.rest)
  -- something that is cut is seen as a replacement character
  have hreplaced : c.rest.flatMap Piece.seen ≠ c.rest.map Piece.char →
      replacement ∈ c.rest.flatMap Piece.seen := by
    intro hne
    rw [ne_eq, hrest] at hne
    obtain ⟨p, hp⟩ := not_forall.mp hne
    obtain ⟨hp, hcut⟩ := Classical.not_imp.mp hp
    obtain ⟨k, hk⟩ := p.seen_of_cut (by simpa using hcut)
    exact List.mem_flatMap.mpr ⟨p, hp, hk ▸ List.mem_cons_self⟩
  rw [hharmless, streamResponse, streamResponse, captureAll_eq, captureAll_eq, hfeed, hwhole,
    Prod.mk.injEq, ← hframes, ← hrest]
  refine and_congr_right fun h => ?_
  dsimp only at h ⊢
  rw [h]
  exact finalizeStream_eq_iff _ _ _ _ _ hreplaced

/-- A value that is streamed. -/
def deltaValue (content : String) : JsonValue :=
  .object [("choices", .array [.object [("delta", .object [("content", .string content)])]])]

/-- A stream of a comment and a value, with line ends of two bytes. -/
def accentStream : List Char :=
  (": é\r\n\r\ndata: " ++ (deltaValue "é").text OpenAi.writer ++ "\r\n\r\n").toList

/-- An exchange that streams. -/
def accentContext : StreamContext where
  exchange := .openAi (.new "ex-1" none)
  session := { sessionId := "s", state := ⟨0, 1, []⟩ }
  status := 200
  requestId := none
  artifacts := {}
  streamPath := "stream.ndjson"
  responsePath := "response.json"

/-- The stream, cut behind some bytes. -/
def cutBehind (n : ℕ) : List Bytes := [(encode accentStream).take n, (encode accentStream).drop n]

/-- What is captured when the character of the comment is cut. -/
theorem capture_chunk_invariant_comment :
    streamResponse (OpenAi.reading [deltaValue "é"]) accentContext (cutBehind 3) =
      streamResponse (OpenAi.reading [deltaValue "é"]) accentContext
        [encode accentStream] :=
  (capture_chunk_invariant (OpenAi.reading [deltaValue "é"]) accentContext accentStream
    (cutBehind 3) (by decide) (by decide)).mpr (by decide)

/-- **A character that is cut is lost**, in the frame and in what the assistant has said. -/
theorem cut_character_changes_frame :
    CrLf isCr isLf accentStream ∧ (cutBehind 48).flatten = encode accentStream ∧
      (streamResponse (OpenAi.reading [deltaValue "é", deltaValue "��"])
        accentContext (cutBehind 48)).1.map SseFrame.raw ≠
      (streamResponse (OpenAi.reading [deltaValue "é", deltaValue "��"])
        accentContext [encode accentStream]).1.map SseFrame.raw ∧
      (streamResponse (OpenAi.reading [deltaValue "é", deltaValue "��"])
        accentContext (cutBehind 48)).2.1.map TurnEnvelope.said =
          [some ("��", [])] ∧
      (streamResponse (OpenAi.reading [deltaValue "é", deltaValue "��"])
        accentContext [encode accentStream]).2.1.map TurnEnvelope.said =
          [some ("é", [])] := by
  refine ⟨by decide, by decide, by decide, by decide,
    by decide⟩

end Cxdb
