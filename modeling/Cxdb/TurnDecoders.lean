import Mathlib.Algebra.Order.BigOperators.Group.List
import Mathlib.Algebra.Order.Group.Nat
import Cxdb.Clients
import Cxdb.Decoders
import Cxdb.ExceptLoops
import Cxdb.Requests

/-!
# Reading Turns

The decoders of a `GetLast` response: `parse_turn_records` of `turn.rs` and
`parseTurnRecords` of `turn.go`. Both read the fields of a turn in the order in which the
server writes them, and both read the length of a payload whether or not the server wrote
one. They differ in how they read a block of bytes: Rust reads exactly as many as it asks
for; Go takes what is there, and an error when nothing is, also for an empty block.

## Main results

* `TurnReader.parseTurnRecords_encodeTurns`: when a reader gets back the turns that the
  server wrote, for readers that differ in this way.
* `getLast_response_decoded`: when the two clients do.
-/

open ByteFormat Decoding ExceptLoops

namespace Cxdb

/-! ### The decoders -/

/-- `TurnRecord` of the clients; `τ` is the type of their strings. -/
structure ClientTurn (τ : Type) where
  turnId : UInt64
  parentId : UInt64
  depth : UInt32
  typeId : τ
  typeVersion : UInt32
  encoding : UInt32
  compression : UInt32
  payloadHash : Hash
  payload : Bytes
  deriving DecidableEq

/-- How a client reads: its errors, a block of bytes, and a string. -/
structure TurnReader (ε τ : Type) where
  tooShort : ε
  short : Bytes → ε
  block (n : ℕ) : Decoder ε (List.Vector UInt8 n)
  typeId : Bytes → Except ε τ

variable {ε τ : Type}

def TurnReader.u64 (r : TurnReader ε τ) : Decoder ε UInt64 := taking r.short takeU64

def TurnReader.u32 (r : TurnReader ε τ) : Decoder ε UInt32 := taking r.short takeU32

/-- The body of the loop over the turns. -/
def TurnReader.turnRecord (r : TurnReader ε τ) : Decoder ε (ClientTurn τ) := do
  let turnId ← r.u64
  let parentId ← r.u64
  let depth ← r.u32
  let typeLen ← r.u32
  let typeBytes ← r.block typeLen.toNat
  let typeId ← given (r.typeId typeBytes.toList)
  let typeVersion ← r.u32
  let encoding ← r.u32
  let compression ← r.u32
  let _uncompressedLen ← r.u32
  let payloadHash ← r.block 32
  let payloadLen ← r.u32
  let payload ← r.block payloadLen.toNat
  return { turnId, parentId, depth, typeId, typeVersion, encoding, compression, payloadHash,
           payload := payload.toList }

/-- The count, and as many turns; bytes after the last turn are left unread. -/
def TurnReader.parseTurnRecords (r : TurnReader ε τ) (data : Bytes) :
    Except ε (List (ClientTurn τ)) :=
  if data.length < 4 then .error r.tooShort
  else
    Except.map (·.1) <| (do
      let count ← r.u32
      repeated r.turnRecord count.toNat : Decoder ε (List (ClientTurn τ))) data

/-- `byteorder` and `read_exact` on a cursor, and `String::from_utf8`. -/
def Rust.turnReader : TurnReader ClientError String where
  tooShort := .invalidResponse "turn records too short"
  short _ := .io .unexpectedEof "failed to fill whole buffer"
  block n := taking (fun _ => .io .unexpectedEof "failed to fill whole buffer") (takeVector n)
  typeId bytes :=
    match fromUtf8 bytes with
    | some s => .ok s
    | none => .error (.invalidResponse "type_id not utf8")

/-- `binary.Read` and `cursor.Read` on a `bytes.Reader`. The latter reads what is there into
a buffer of zeros, and is at its end when nothing is left, however small the buffer. -/
def Go.turnReader : TurnReader GoError Bytes where
  tooShort := .other "cxdb: invalid response: turn records too short"
  short bs := if bs = [] then .eof else .unexpectedEof
  block n := fun bs =>
    if bs = [] then .error .eof
    else .ok (⟨(bs.take n).rightpad n 0, by
      rw [List.length_rightpad, List.length_take]
      omega⟩, bs.drop n)
  typeId bytes := .ok bytes

/-- `get_last` of the Rust client, once its response is there. -/
def Rust.getLast (lower : String → String) (decode : Decoding) (response : Bytes) :
    Except ClientError (List (ClientTurn String)) := do
  let frame ← (rustApi lower).receive decode
    (.io .unexpectedEof "failed to fill whole buffer") response
  Rust.turnReader.parseTurnRecords frame.payload

/-- `GetLast` of the Go client, once its response is there. -/
def Go.getLast (lower : String → String) (decode : Decoding) (response : Bytes) :
    Except GoError (List (ClientTurn Bytes)) := do
  let frame ← (goApi lower).receive decode .unexpectedEof response
  Go.turnReader.parseTurnRecords frame.payload

/-! ### What the server writes -/

/-- A turn that is to be returned, and its payload. -/
structure ServedTurn where
  record : TurnRecord
  turnMeta : TurnMeta
  payload : Bytes

/-- The turn as `get_last` returns it: with its payload, if it was asked for. -/
def ServedTurn.item (includePayload : Bool) (t : ServedTurn) : TurnWithMeta :=
  { record := t.record, turnMeta := t.turnMeta
    payload := if includePayload then some t.payload else none }

/-- The turn as a client should hold it. A payload is never sent compressed. -/
def ServedTurn.received (name : String → τ) (includePayload : Bool) (t : ServedTurn) :
    ClientTurn τ where
  turnId := t.record.turnId
  parentId := t.record.parentTurnId
  depth := t.record.depth
  typeId := name t.turnMeta.declaredTypeId
  typeVersion := t.turnMeta.declaredTypeVersion
  encoding := t.turnMeta.encoding
  compression := if includePayload then 0 else t.turnMeta.compression
  payloadHash := t.record.payloadHash
  payload := if includePayload then t.payload else []

/-- The frame with which `handle_client` answers. -/
def getLastResponse (includePayload : Bool) (reqId : UInt64) (turns : List ServedTurn) : Frame :=
  Frame.make MsgType.getLast.toU16 0 reqId (encodeTurns (turns.map (·.item includePayload)))

/-- What `get_last` returns has payloads exactly if they were asked for. -/
theorem Stores.getLast_served {z : Zstd} {s : Stores} {pack : Bytes} {c : UInt64}
    {limit : UInt32} {includePayload : Bool} {items : List TurnWithMeta}
    (h : s.getLast z pack c limit includePayload = .ok items) :
    ∃ turns : List ServedTurn, items = turns.map (·.item includePayload) := by
  have hitems : ∀ item ∈ items, ∃ t : ServedTurn, item = t.item includePayload := by
    rw [Stores.getLast] at h
    cases hturns : s.turnStore.getLast c limit with
    | error e =>
        rw [hturns] at h
        cases h
    | ok turns =>
        rw [hturns] at h
        refine forall_of_mapM (fun record item hitem => ?_) h
        cases hm : s.turnStore.getTurnMeta record.turnId with
        | error e =>
            rw [hm] at hitem
            cases hitem
        | ok m =>
            rw [hm] at hitem
            cases includePayload with
            | false => exact ⟨⟨record, m, []⟩, (Except.ok.inj hitem).symm⟩
            | true =>
                cases hb : s.blobStore.get z pack record.payloadHash with
                | error e =>
                    simp only [hb, bind, Except.bind, if_true] at hitem
                    cases hitem
                | ok raw =>
                    simp only [hb, bind, Except.bind, if_true, pure, Except.pure] at hitem
                    exact ⟨⟨record, m, raw⟩, (Except.ok.inj hitem).symm⟩
  choose served hserved using hitems
  refine ⟨items.attach.map fun p => served p.1 p.2, ?_⟩
  rw [List.map_map]
  exact (List.attach_map_subtype_val items).symm.trans
    (List.map_congr_left fun p _ => hserved p.1 p.2)

/-- What the server writes of one turn. -/
def encodeTurn (item : TurnWithMeta) : Bytes :=
  u64Bytes item.record.turnId ++ (u64Bytes item.record.parentTurnId ++
    (u32Bytes item.record.depth ++
      (u32Bytes (UInt32.ofNat (utf8Bytes item.turnMeta.declaredTypeId).length) ++
        (utf8Bytes item.turnMeta.declaredTypeId ++
          (u32Bytes item.turnMeta.declaredTypeVersion ++ (u32Bytes item.turnMeta.encoding ++
            (u32Bytes (item.payload.elim item.turnMeta.compression fun _ => 0) ++
              (u32Bytes (item.payload.elim item.turnMeta.uncompressedLen fun p =>
                  UInt32.ofNat p.length) ++
                (item.record.payloadHash.toList ++
                  item.payload.elim [] fun p =>
                    u32Bytes (UInt32.ofNat p.length) ++ p)))))))))

theorem encodeTurns_eq (items : List TurnWithMeta) :
    encodeTurns items = u32Bytes (UInt32.ofNat items.length) ++ items.flatMap encodeTurn := rfl

/-- The bytes of a turn, its payload apart: 76 with the length of the payload. -/
theorem length_encodeTurn (includePayload : Bool) (t : ServedTurn) :
    (encodeTurn (t.item includePayload)).length =
      72 + (utf8Bytes t.turnMeta.declaredTypeId).length +
        if includePayload then 4 + t.payload.length else 0 := by
  have hhash : t.record.payloadHash.toList.length = 32 := t.record.payloadHash.2
  cases includePayload <;>
    simp only [encodeTurn, ServedTurn.item, Option.elim, List.length_append, length_u64Bytes,
      length_u32Bytes, hhash, if_true, if_false, Bool.false_eq_true, List.length_nil] <;>
    omega

/-- The bytes of a response. -/
theorem length_encodeTurns (includePayload : Bool) (turns : List ServedTurn) :
    (encodeTurns (turns.map (·.item includePayload))).length =
      4 + (turns.map fun t => 72 + (utf8Bytes t.turnMeta.declaredTypeId).length +
        if includePayload then 4 + t.payload.length else 0).sum := by
  rw [encodeTurns_eq, List.length_append, length_u32Bytes, List.length_flatMap, List.map_map]
  simp only [Function.comp_def, length_encodeTurn]

/-! ### What a reader needs -/

/-- What the clients' readers have in common. `least n` bytes have to be there for a block
of `n`, and a block that does not end the stream is read exactly. -/
structure TurnReader.Lawful (r : TurnReader ε τ) (least : ℕ → ℕ) (typeBytes : τ → Bytes)
    (name : String → τ) : Prop where
  least_le : ∀ n, least n ≤ n + 1
  block_append : ∀ {n} (v : List.Vector UInt8 n) rest, least n ≤ (v.toList ++ rest).length →
    r.block n (v.toList ++ rest) = .ok (v, rest)
  block_least : ∀ {n bs v rest}, r.block n bs = .ok (v, rest) → least n ≤ bs.length
  block_exact : ∀ {n bs v rest}, r.block n bs = .ok (v, rest) → rest ≠ [] →
    bs.length = n + rest.length
  typeId_eq : ∀ {bytes t}, r.typeId bytes = .ok t ↔ typeBytes t = bytes
  typeBytes_name : ∀ s, typeBytes (name s) = utf8Bytes s

theorem Rust.block_eq_ok {n : ℕ} {bs rest : Bytes} {v : List.Vector UInt8 n} :
    Rust.turnReader.block n bs = .ok (v, rest) ↔ takeVector n bs = some (v, rest) := by
  simp only [Rust.turnReader, taking_eq_ok]

/-- Rust reads every block exactly. -/
theorem Rust.block_length {n : ℕ} {bs rest : Bytes} {v : List.Vector UInt8 n}
    (h : Rust.turnReader.block n bs = .ok (v, rest)) : bs.length = n + rest.length := by
  rcases takeVector_cases n bs with ⟨hnone, -⟩ | ⟨v', rest', hsome, hlen⟩
  · rw [Rust.block_eq_ok.mp h] at hnone
    cases hnone
  · rw [Rust.block_eq_ok.mp h] at hsome
    obtain ⟨-, rfl⟩ := Prod.mk.inj (Option.some.inj hsome)
    exact hlen

theorem Rust.turnReader_lawful : Rust.turnReader.Lawful id utf8Bytes id where
  least_le n := Nat.le_succ n
  block_append v rest _ := Rust.block_eq_ok.mpr (takeVector_append v rest)
  block_least {n bs v rest} h := by
    have := Rust.block_length h
    rw [id_eq]
    omega
  block_exact h _ := Rust.block_length h
  typeId_eq {bytes t} := by
    simp only [Rust.turnReader]
    cases h : fromUtf8 bytes with
    | none =>
        simp only [reduceCtorEq, false_iff]
        rintro rfl
        rw [fromUtf8_utf8Bytes] at h
        cases h
    | some s =>
        simp only [Except.ok.injEq]
        constructor
        · rintro rfl
          exact utf8Bytes_of_fromUtf8 h
        · rintro rfl
          rw [fromUtf8_utf8Bytes] at h
          exact (Option.some.inj h).symm
  typeBytes_name _ := rfl

/-- Go is content with one byte, and fails without. -/
theorem Go.turnReader_lawful : Go.turnReader.Lawful (fun _ => 1) id utf8Bytes where
  least_le n := Nat.succ_le_succ (Nat.zero_le n)
  block_append {n} v rest hleast := by
    obtain ⟨l, rfl⟩ := v
    have hne : l ++ rest ≠ [] := List.ne_nil_of_length_pos hleast
    simp [Go.turnReader, List.Vector.toList, hne, List.rightpad]
  block_least {n bs v rest} h := by
    rw [Go.turnReader] at h
    dsimp only at h
    split at h
    · cases h
    · exact List.length_pos_iff.mpr ‹_›
  block_exact {n bs v rest} h hrest := by
    rw [Go.turnReader] at h
    dsimp only at h
    split at h
    · cases h
    · obtain ⟨-, rfl⟩ := Prod.mk.inj (Except.ok.inj h)
      have := List.length_pos_iff.mpr hrest
      rw [List.length_drop] at this ⊢
      omega
  typeId_eq {bytes t} := by
    rw [Go.turnReader, Except.ok.injEq, id_eq]
    exact eq_comm
  typeBytes_name _ := rfl

variable {r : TurnReader ε τ} {least : ℕ → ℕ} {typeBytes : τ → Bytes} {name : String → τ}
  {bs rest : Bytes}

theorem TurnReader.u64_length {x : UInt64} (h : r.u64 bs = .ok (x, rest)) :
    bs.length = 8 + rest.length := by
  rcases takeU64_cases bs with ⟨hnone, -⟩ | ⟨x', rest', hsome, hlen⟩
  · rw [taking_eq_ok.mp h] at hnone
    cases hnone
  · rw [taking_eq_ok.mp h] at hsome
    obtain ⟨-, rfl⟩ := Prod.mk.inj (Option.some.inj hsome)
    exact hlen

theorem TurnReader.u32_length {x : UInt32} (h : r.u32 bs = .ok (x, rest)) :
    bs.length = 4 + rest.length := by
  rcases takeU32_cases bs with ⟨hnone, -⟩ | ⟨x', rest', hsome, hlen⟩
  · rw [taking_eq_ok.mp h] at hnone
    cases hnone
  · rw [taking_eq_ok.mp h] at hsome
    obtain ⟨-, rfl⟩ := Prod.mk.inj (Option.some.inj hsome)
    exact hlen

/-- A block that is followed by a word is read exactly. -/
theorem TurnReader.Lawful.block_length (hr : r.Lawful least typeBytes name) {n : ℕ}
    {v : List.Vector UInt8 n} {x : UInt32} {rest' : Bytes} (h : r.block n bs = .ok (v, rest))
    (hnext : r.u32 rest = .ok (x, rest')) : bs.length = n + 4 + rest'.length := by
  have hlen := TurnReader.u32_length hnext
  have hexact := hr.block_exact h (List.ne_nil_of_length_pos (by omega))
  omega

/-- **What a turn costs.** -/
theorem TurnReader.Lawful.turnRecord_cost (hr : r.Lawful least typeBytes name)
    {t : ClientTurn τ} (h : r.turnRecord bs = .ok (t, rest)) :
    t.payload.length < 2 ^ 32 ∧
      76 + (typeBytes t.typeId).length + least t.payload.length ≤ bs.length ∧
      (rest ≠ [] →
        bs.length = 76 + (typeBytes t.typeId).length + t.payload.length + rest.length) := by
  rw [TurnReader.turnRecord] at h
  obtain ⟨turnId, bs₁, h₁, h⟩ := bind_eq_ok.mp h
  obtain ⟨parentId, bs₂, h₂, h⟩ := bind_eq_ok.mp h
  obtain ⟨depth, bs₃, h₃, h⟩ := bind_eq_ok.mp h
  obtain ⟨typeLen, bs₄, h₄, h⟩ := bind_eq_ok.mp h
  obtain ⟨typeBlock, bs₅, h₅, h⟩ := bind_eq_ok.mp h
  obtain ⟨typeId, bs₆, h₆, h⟩ := bind_eq_ok.mp h
  obtain ⟨typeVersion, bs₇, h₇, h⟩ := bind_eq_ok.mp h
  obtain ⟨encoding, bs₈, h₈, h⟩ := bind_eq_ok.mp h
  obtain ⟨compression, bs₉, h₉, h⟩ := bind_eq_ok.mp h
  obtain ⟨uncompressedLen, bs₁₀, h₁₀, h⟩ := bind_eq_ok.mp h
  obtain ⟨payloadHash, bs₁₁, h₁₁, h⟩ := bind_eq_ok.mp h
  obtain ⟨payloadLen, bs₁₂, h₁₂, h⟩ := bind_eq_ok.mp h
  obtain ⟨payload, bs₁₃, h₁₃, h⟩ := bind_eq_ok.mp h
  obtain ⟨rfl, rfl⟩ := Prod.mk.inj (pure_eq_ok.mp h)
  obtain ⟨htype, rfl⟩ := given_eq_ok.mp h₆
  have htypeLen : (typeBytes typeId).length = typeLen.toNat := by
    rw [hr.typeId_eq.mp htype, List.Vector.toList_length]
  have hpayloadLen : payload.toList.length = payloadLen.toNat := payload.toList_length
  have hbound : payloadLen.toNat < 2 ^ 32 := payloadLen.toNat_lt
  -- Every read but the last is followed by a word, so it takes what it asks for.
  have hhead : bs.length = 76 + typeLen.toNat + bs₁₂.length := by
    have := TurnReader.u64_length h₁
    have := TurnReader.u64_length h₂
    have := TurnReader.u32_length h₃
    have := TurnReader.u32_length h₄
    have := hr.block_length h₅ h₇
    have := TurnReader.u32_length h₈
    have := TurnReader.u32_length h₉
    have := TurnReader.u32_length h₁₀
    have := hr.block_length h₁₁ h₁₂
    omega
  refine ⟨by rw [hpayloadLen]; exact hbound, ?_, fun hrest => ?_⟩
  · have := hr.block_least h₁₃
    dsimp only
    rw [hpayloadLen, htypeLen]
    omega
  · have := hr.block_exact h₁₃ hrest
    dsimp only
    rw [hpayloadLen, htypeLen]
    omega

/-- The bytes that the turns need: the last payload may be cut off. -/
def TurnReader.need (least : ℕ → ℕ) (typeBytes : τ → Bytes) : List (ClientTurn τ) → ℕ
  | [] => 0
  | t :: ts =>
      76 + (typeBytes t.typeId).length +
        (if ts.isEmpty then least t.payload.length else t.payload.length) + need least typeBytes ts

theorem TurnReader.need_pos (t : ClientTurn τ) (ts : List (ClientTurn τ)) :
    0 < need least typeBytes (t :: ts) := by
  rw [need]
  omega

/-- **What turns cost.** -/
theorem TurnReader.Lawful.parseTurnRecords_cost (hr : r.Lawful least typeBytes name)
    {data : Bytes} {ts : List (ClientTurn τ)} (h : r.parseTurnRecords data = .ok ts) :
    4 + need least typeBytes ts ≤ data.length ∧ ∀ t ∈ ts, t.payload.length < 2 ^ 32 := by
  rw [TurnReader.parseTurnRecords] at h
  split at h
  · cases h
  · cases hread : (do
        let count ← r.u32
        repeated r.turnRecord count.toNat : Decoder ε (List (ClientTurn τ))) data with
    | error e =>
        rw [hread] at h
        cases h
    | ok p =>
        rw [hread] at h
        obtain ⟨ts, rest⟩ := p
        obtain rfl := Except.ok.inj h
        obtain ⟨count, bs, hcount, hts⟩ := bind_eq_ok.mp hread
        have hneed : need least typeBytes ts ≤ bs.length :=
          repeated_cost (show need least typeBytes [] = 0 from rfl) (fun bs t rest ts ht hts => by
            obtain ⟨-, hleast, hexact⟩ := hr.turnRecord_cost ht
            rw [need]
            cases ts with
            | nil => exact hleast
            | cons u ts =>
                have hpos : 0 < need least typeBytes (u :: ts) := need_pos u ts
                have := hexact (List.ne_nil_of_length_pos (by omega))
                simp only [List.isEmpty_cons, Bool.false_eq_true, if_false]
                omega) hts
        have hlen := TurnReader.u32_length hcount
        exact ⟨by dsimp only; omega,
          repeated_forall (fun _ _ _ ht => (hr.turnRecord_cost ht).1) hts⟩

/-! ### What a reader gets back -/

/-- A block behind its length. -/
theorem TurnReader.Lawful.block_bytes (hr : r.Lawful least typeBytes name) {b : Bytes}
    (hb : b.length < 2 ^ 32) (rest : Bytes) (hleast : least b.length ≤ (b ++ rest).length) :
    ∃ v, r.block (UInt32.ofNat b.length).toNat (b ++ rest) = .ok (v, rest) ∧ v.toList = b := by
  have hlen : b.length = (UInt32.ofNat b.length).toNat := by
    rw [UInt32.toNat_ofNat']
    exact (Nat.mod_eq_of_lt hb).symm
  have hleast' : least (UInt32.ofNat b.length).toNat ≤ (b ++ rest).length := by
    rw [← hlen]
    exact hleast
  exact ⟨⟨b, hlen⟩, hr.block_append ⟨b, hlen⟩ rest hleast', rfl⟩

/-- **A turn that was written with its payload is read back**, if there is enough left for
the reader to take the payload. -/
theorem TurnReader.Lawful.turnRecord_encodeTurn (hr : r.Lawful least typeBytes name)
    (t : ServedTurn) (rest : Bytes) (htype : (utf8Bytes t.turnMeta.declaredTypeId).length < 2 ^ 32)
    (hpayload : t.payload.length < 2 ^ 32)
    (hleast : least t.payload.length ≤ (t.payload ++ rest).length) :
    r.turnRecord (encodeTurn (t.item true) ++ rest) = .ok (t.received name true, rest) := by
  have hu64 : ∀ x rest, r.u64 (u64Bytes x ++ rest) = .ok (x, rest) := fun x rest =>
    taking_of_some (takeU64_append x rest)
  have hu32 : ∀ x rest, r.u32 (u32Bytes x ++ rest) = .ok (x, rest) := fun x rest =>
    taking_of_some (takeU32_append x rest)
  have hhash : ∀ (v : Hash) x more, r.block 32 (v.toList ++ (u32Bytes x ++ more)) =
      .ok (v, u32Bytes x ++ more) := fun v x more =>
    hr.block_append v _ (le_trans (hr.least_le 32) (by
      rw [List.length_append, List.length_append, List.Vector.toList_length, length_u32Bytes]
      omega))
  have hid : r.typeId (utf8Bytes t.turnMeta.declaredTypeId) = .ok (name t.turnMeta.declaredTypeId) :=
    hr.typeId_eq.mpr (hr.typeBytes_name _)
  simp only [encodeTurn, ServedTurn.item, Option.elim, if_true, List.append_assoc]
  obtain ⟨v, hv, hvlist⟩ := hr.block_bytes htype
    (u32Bytes t.turnMeta.declaredTypeVersion ++ (u32Bytes t.turnMeta.encoding ++ (u32Bytes 0 ++
      (u32Bytes (UInt32.ofNat t.payload.length) ++ (t.record.payloadHash.toList ++
        (u32Bytes (UInt32.ofNat t.payload.length) ++ (t.payload ++ rest)))))))
    (le_trans (hr.least_le _) (by
      rw [List.length_append, List.length_append, length_u32Bytes]
      omega))
  obtain ⟨p, hp, hplist⟩ := hr.block_bytes hpayload rest hleast
  rw [TurnReader.turnRecord, run_bind (hu64 _ _), run_bind (hu64 _ _), run_bind (hu32 _ _),
    run_bind (hu32 _ _), run_bind hv, hvlist, hid,
    run_bind (given_eq_ok.mpr ⟨rfl, rfl⟩), run_bind (hu32 _ _), run_bind (hu32 _ _),
    run_bind (hu32 _ _), run_bind (hu32 _ _), run_bind (hhash _ _ _), run_bind (hu32 _ _),
    run_bind hp, hplist]
  rfl

/-- The last payload is one that the reader can take from the end of the stream. -/
def LastReadable (least : ℕ → ℕ) (turns : List ServedTurn) : Prop :=
  ∀ t ∈ turns.getLast?, least t.payload.length ≤ t.payload.length

instance (least : ℕ → ℕ) (turns : List ServedTurn) : Decidable (LastReadable least turns) :=
  inferInstanceAs (Decidable (∀ t ∈ turns.getLast?, _))

/-- Every turn that was written with its payload is read back. -/
theorem TurnReader.Lawful.parseTurnRecords_of_readable (hr : r.Lawful least typeBytes name)
    {turns : List ServedTurn} (hlast : LastReadable least turns)
    (hlen : (encodeTurns (turns.map (·.item true))).length < 2 ^ 32) :
    r.parseTurnRecords (encodeTurns (turns.map (·.item true))) =
      .ok (turns.map (·.received name true)) := by
  rw [length_encodeTurns] at hlen
  have hsize : ∀ t ∈ turns, 72 + (utf8Bytes t.turnMeta.declaredTypeId).length +
      (4 + t.payload.length) < 2 ^ 32 := fun t ht =>
    lt_of_le_of_lt (le_trans (List.le_sum_of_mem (List.mem_map.mpr ⟨t, ht, rfl⟩))
      (Nat.le_add_left _ 4)) hlen
  have hcount : (UInt32.ofNat turns.length).toNat = turns.length := by
    rw [UInt32.toNat_ofNat']
    refine Nat.mod_eq_of_lt (lt_of_le_of_lt ?_ hlen)
    have hone := List.length_le_sum_of_one_le (turns.map fun t =>
      72 + (utf8Bytes t.turnMeta.declaredTypeId).length + (4 + t.payload.length)) (by
        intro i hi
        obtain ⟨t, -, rfl⟩ := List.mem_map.mp hi
        omega)
    rw [List.length_map] at hone
    exact le_trans hone (Nat.le_add_left _ 4)
  rw [TurnReader.parseTurnRecords, if_neg (by rw [length_encodeTurns]; omega), encodeTurns_eq,
    List.length_map, List.flatMap_map]
  have hread : repeated r.turnRecord turns.length
      ((turns.flatMap fun t => encodeTurn (t.item true)) ++ []) =
        .ok (turns.map fun t => t.received name true, []) := repeated_ok (fun pre t post hsplit => by
      have hmem : t ∈ turns := hsplit ▸ List.mem_append_right _ List.mem_cons_self
      have := hsize t hmem
      refine hr.turnRecord_encodeTurn t _ (by omega) (by omega) ?_
      cases post with
      | nil =>
          have := hlast t (by rw [hsplit, List.getLast?_concat]; rfl)
          rw [List.length_append]
          omega
      | cons u post =>
          refine le_trans (hr.least_le _) ?_
          rw [List.flatMap_cons, List.length_append, List.length_append, List.length_append,
            length_encodeTurn]
          omega)
  rw [List.append_nil] at hread
  have hu32 : r.u32 (u32Bytes (UInt32.ofNat turns.length) ++
      turns.flatMap fun t => encodeTurn (t.item true)) = .ok (UInt32.ofNat turns.length, _) :=
    taking_of_some (takeU32_append _ _)
  rw [run_bind hu32, hcount, hread]
  rfl

/-- Without their payloads, turns need more than was written. -/
theorem need_received_false (hname : ∀ s, typeBytes (name s) = utf8Bytes s) (least : ℕ → ℕ)
    (turns : List ServedTurn) :
    (turns.map fun t => 76 + (utf8Bytes t.turnMeta.declaredTypeId).length).sum ≤
      TurnReader.need least typeBytes (turns.map (·.received name false)) := by
  induction turns with
  | nil => exact Nat.le_refl 0
  | cons t turns ih =>
      rw [List.map_cons, List.sum_cons, List.map_cons, TurnReader.need, ServedTurn.received, hname]
      omega

/-- With their payloads, they need what was written, and what the last read asks for. -/
theorem need_received_true (hname : ∀ s, typeBytes (name s) = utf8Bytes s) (least : ℕ → ℕ)
    (turns : List ServedTurn) (t : ServedTurn) :
    TurnReader.need least typeBytes ((turns ++ [t]).map (·.received name true)) + t.payload.length =
      ((turns ++ [t]).map fun t => 72 + (utf8Bytes t.turnMeta.declaredTypeId).length +
        (4 + t.payload.length)).sum + least t.payload.length := by
  induction turns with
  | nil =>
      simp only [List.nil_append, List.map_cons, List.map_nil, List.sum_cons, List.sum_nil,
        TurnReader.need, ServedTurn.received, hname, if_true, List.isEmpty_nil]
      omega
  | cons u turns ih =>
      have hmore : ((turns ++ [t]).map (·.received name true)).isEmpty = false := by
        rw [List.map_append, List.map_cons]
        exact List.isEmpty_eq_false_iff.mpr (List.append_ne_nil_of_right_ne_nil _ (by simp))
      rw [List.cons_append, List.map_cons, List.map_cons, List.sum_cons, TurnReader.need, hmore]
      simp only [Bool.false_eq_true, if_false, ServedTurn.received, hname, if_true] at ih ⊢
      omega

/-- **When the turns are read back.** The reader holds as much of the response as the length
field of its frame says. -/
theorem TurnReader.Lawful.parseTurnRecords_encodeTurns (hr : r.Lawful least typeBytes name)
    (includePayload : Bool) (turns : List ServedTurn) {response : Bytes}
    (hresponse : response = encodeTurns (turns.map (·.item includePayload))) :
    r.parseTurnRecords (response.take (response.length % 2 ^ 32)) =
        .ok (turns.map (·.received name includePayload)) ↔
      turns = [] ∨ includePayload = true ∧ response.length < 2 ^ 32 ∧ LastReadable least turns := by
  constructor
  · intro h
    obtain ⟨hcost, hsmall⟩ := hr.parseTurnRecords_cost h
    rw [List.length_take] at hcost
    have hlength := congrArg List.length hresponse
    rw [length_encodeTurns] at hlength
    rcases List.eq_nil_or_concat turns with rfl | ⟨init, t, rfl⟩
    · exact Or.inl rfl
    rw [List.concat_eq_append] at *
    cases includePayload with
    | false =>
        -- Every turn was written with four bytes less than are read.
        have hneed := need_received_false hr.typeBytes_name least (init ++ [t])
        have hlt : ((init ++ [t]).map fun t =>
            72 + (utf8Bytes t.turnMeta.declaredTypeId).length + 0).sum <
            ((init ++ [t]).map fun t =>
              76 + (utf8Bytes t.turnMeta.declaredTypeId).length).sum :=
          List.sum_lt_sum_of_ne_nil (by simp) _ _ fun t _ => by omega
        simp only [Bool.false_eq_true, if_false] at hlength
        omega
    | true =>
        have hneed := need_received_true hr.typeBytes_name least init t
        have hpayload : t.payload.length < 2 ^ 32 :=
          hsmall _ (List.mem_map.mpr ⟨t, by simp, rfl⟩)
        simp only [if_true] at hlength
        have hfits : response.length < 2 ^ 32 := by omega
        rw [Nat.mod_eq_of_lt hfits] at hcost
        refine Or.inr ⟨rfl, hfits, fun u hu => ?_⟩
        rw [List.getLast?_concat] at hu
        obtain rfl := Option.mem_some_iff.mp hu
        omega
  · rintro (rfl | ⟨rfl, hfits, hlast⟩)
    · have hempty : LastReadable least [] := fun _ h => by cases h
      have hnil := hr.parseTurnRecords_of_readable hempty (by decide)
      subst hresponse
      exact hnil
    · subst hresponse
      rw [Nat.mod_eq_of_lt hfits, List.take_length]
      exact hr.parseTurnRecords_of_readable hlast hfits

/-- What a call makes of a response that is not an error. -/
theorem Api.receive_make (api : Api ε) (decode : Decoding) (cut : ε) {msgType flags : UInt16}
    {reqId : UInt64} {payload : Bytes} (hty : msgType ≠ msgError) :
    api.receive decode cut (Frame.make msgType flags reqId payload).bytes =
      match api.tooLarge (UInt32.ofNat payload.length) with
      | some e => .error e
      | none => .ok (Frame.make msgType flags reqId payload).taken := by
  have hrejects : api.rejects (Frame.make msgType flags reqId payload).bytes =
      api.tooLarge (UInt32.ofNat payload.length) := by
    rw [Api.rejects, Frame.bytes, FrameHeader.bytes, List.append_assoc, takeU32_append]
    rfl
  have htake := takeFrame_bytes (Frame.len_make_le msgType flags reqId payload) []
  rw [List.append_nil] at htake
  rw [Api.receive, hrejects, htake]
  cases api.tooLarge (UInt32.ofNat payload.length) with
  | some e => rfl
  | none => exact if_neg hty

/-- The response of the server is shorter than `n` bytes. -/
def ResponseBelow (n : ℕ) (includePayload : Bool) (turns : List ServedTurn) : Prop :=
  (encodeTurns (turns.map (·.item includePayload))).length < n

instance (n : ℕ) (includePayload : Bool) (turns : List ServedTurn) :
    Decidable (ResponseBelow n includePayload turns) :=
  inferInstanceAs (Decidable (_ < n))

/-- What a reader makes of the frame of a response. -/
theorem TurnReader.parseTurnRecords_taken (r : TurnReader ε τ) (includePayload : Bool)
    (reqId : UInt64) (turns : List ServedTurn) {response : Bytes}
    (hresponse : response = encodeTurns (turns.map (·.item includePayload))) :
    r.parseTurnRecords (getLastResponse includePayload reqId turns).taken.payload =
      r.parseTurnRecords (response.take (response.length % 2 ^ 32)) := by
  subst hresponse
  rw [Frame.taken, getLastResponse, Frame.make, UInt32.toNat_ofNat']

/-- The Rust client refuses a response of more than 64 MiB. -/
theorem Rust.getLast_response (lower : String → String) (decode : Decoding)
    (includePayload : Bool) (reqId : UInt64) (turns : List ServedTurn) :
    Rust.getLast lower decode (getLastResponse includePayload reqId turns).bytes =
        .ok (turns.map (·.received id includePayload)) ↔
      turns = [] ∨ includePayload = true ∧
        ResponseBelow (maxFrameSize.toNat + 1) includePayload turns := by
  obtain ⟨response, hresponse⟩ : ∃ response,
    response = encodeTurns (turns.map (·.item includePayload)) := ⟨_, rfl⟩
  have hread := Rust.turnReader_lawful.parseTurnRecords_encodeTurns includePayload turns hresponse
  rw [← Rust.turnReader.parseTurnRecords_taken includePayload reqId turns hresponse] at hread
  have hlen : (UInt32.ofNat response.length).toNat = response.length % 2 ^ 32 :=
    UInt32.toNat_ofNat'
  have hmax : maxFrameSize.toNat = 64 * 1024 * 1024 := by decide
  have hlast : LastReadable id turns := fun t _ => le_rfl
  have hnil : turns = [] → response.length = 4 := by
    rintro rfl
    rw [hresponse]
    rfl
  rw [Rust.getLast, getLastResponse, Api.receive_make _ _ _ (by decide), ResponseBelow,
    ← hresponse, hmax]
  simp only [rustApi, gt_iff_lt, UInt32.lt_iff_toNat_lt, hmax, hlen]
  split
  next e herr =>
    have hbig : 64 * 1024 * 1024 < response.length % 2 ^ 32 := by
      by_contra hsmall
      rw [if_neg hsmall] at herr
      cases herr
    refine iff_of_false (fun h => by cases h) ?_
    rintro (hempty | ⟨-, hfits⟩)
    · have := hnil hempty
      omega
    · omega
  next herr =>
    have hsmall : response.length % 2 ^ 32 ≤ 64 * 1024 * 1024 := by
      by_contra hbig
      rw [if_pos (by omega)] at herr
      cases herr
    rw [getLastResponse, ← hresponse] at hread
    refine hread.trans (or_congr_right (and_congr_right fun _ => ?_))
    constructor
    · rintro ⟨hfits, -⟩
      omega
    · exact fun hfits => ⟨by omega, hlast⟩

/-- The Go client takes responses of every length that a frame can have. -/
theorem Go.getLast_response (lower : String → String) (decode : Decoding)
    (includePayload : Bool) (reqId : UInt64) (turns : List ServedTurn) :
    Go.getLast lower decode (getLastResponse includePayload reqId turns).bytes =
        .ok (turns.map (·.received utf8Bytes includePayload)) ↔
      turns = [] ∨ includePayload = true ∧ ResponseBelow (2 ^ 32) includePayload turns ∧
        LastReadable (fun _ => 1) turns := by
  have hread := Go.turnReader_lawful.parseTurnRecords_encodeTurns includePayload turns rfl
  rw [← Go.turnReader.parseTurnRecords_taken includePayload reqId turns rfl] at hread
  rw [Go.getLast, getLastResponse, Api.receive_make _ _ _ (by decide)]
  exact hread

/-- **When a `GetLast` response is decoded into its turns.** Both clients read the length of
a payload that the server leaves out when payloads were not asked for, and the Go client
takes an empty payload at the end of the response for the end of the file. -/
theorem getLast_response_decoded (lower : String → String) (decode : Decoding)
    (includePayload : Bool) (reqId : UInt64) (turns : List ServedTurn) :
    (Rust.getLast lower decode (getLastResponse includePayload reqId turns).bytes =
          .ok (turns.map (·.received id includePayload)) ↔
        turns = [] ∨ includePayload = true ∧
          ResponseBelow (maxFrameSize.toNat + 1) includePayload turns) ∧
      (Go.getLast lower decode (getLastResponse includePayload reqId turns).bytes =
          .ok (turns.map (·.received utf8Bytes includePayload)) ↔
        turns = [] ∨ includePayload = true ∧ ResponseBelow (2 ^ 32) includePayload turns ∧
          LastReadable (fun _ => 1) turns) :=
  ⟨Rust.getLast_response lower decode includePayload reqId turns,
    Go.getLast_response lower decode includePayload reqId turns⟩

/-- One turn with an empty payload. -/
def oneEmptyTurn : ServedTurn where
  record :=
    { turnId := 1, parentTurnId := 0, depth := 0, codec := 1, typeTag := 0
      payloadHash := List.Vector.replicate 32 0, flags := 0, createdAtUnixMs := 0 }
  turnMeta :=
    { declaredTypeId := "t", declaredTypeVersion := 1, encoding := 1, compression := 0
      uncompressedLen := 0 }
  payload := []

set_option maxRecDepth 4000 in
/-- **Without payloads, and with an empty one.** Neither client can read a turn whose payload
was not asked for; the Go client cannot read one whose payload is empty. -/
theorem getLast_response_lost :
    Rust.getLast id (fun _ => "") (getLastResponse false 1 [oneEmptyTurn]).bytes =
        .error (.io .unexpectedEof "failed to fill whole buffer") ∧
      Go.getLast id (fun _ => "") (getLastResponse false 1 [oneEmptyTurn]).bytes = .error .eof ∧
      Go.getLast id (fun _ => "") (getLastResponse true 1 [oneEmptyTurn]).bytes = .error .eof := by
  refine ⟨?_, ?_, ?_⟩ <;> rfl

end Cxdb
