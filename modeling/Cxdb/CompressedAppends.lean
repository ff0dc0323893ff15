import Cxdb.AppendAtomicity
import Cxdb.ClientRequests
import Cxdb.Clients

/-!
# Appends of Compressed Payloads

An append names a compression, and with it a length and a hash. The server decompresses the
bytes that it got and compares both with the result. The clients pass the compression of the
caller on and never compress: the bytes, the length and the hash that they send are those of
the payload as the caller gave it.

## Main results

* `serve_append`: what the server makes of the append of a client.
* `compressed_append`: an append without compression stores its payload; one that names
  Zstandard does so for a payload that Zstandard decodes to itself.
-/

open ByteFormat FaultyDisk

namespace Cxdb

variable {k : Crates}

/-! ### The request -/

/-- The frame that `append_turn` of a client sends. -/
def ClientLib.appendFrame (blake3 : Bytes → Hash) (reqId : UInt64) (r : ClientAppend String) :
    ClientLib → Frame
  | .rust => Rust.request blake3 reqId (.appendTurn r none)
  | .go => Go.request blake3 reqId ((ClientRequest.appendTurn r none).map utf8Bytes)

theorem ClientLib.appendFrame_eq (blake3 : Bytes → Hash) (reqId : UInt64)
    (r : ClientAppend String) (lib : ClientLib) :
    lib.appendFrame blake3 reqId r =
      Frame.make MsgType.appendTurn.toU16 0 reqId (r.bytes utf8Bytes blake3 none) := by
  cases lib <;> rfl

/-- A frame that is read as it was sent is no longer than the server allows. -/
theorem readFrame_make_iff {msgType flags : UInt16} {reqId : UInt64} {payload : Bytes} :
    readFrame (Frame.make msgType flags reqId payload).bytes =
        .ok (Frame.make msgType flags reqId payload, []) ↔
      payload.length ≤ maxFrameSize.toNat := by
  constructor
  · intro h
    have hlen : (Frame.make msgType flags reqId payload).header.len.toNat =
        payload.length % 2 ^ 32 := UInt32.toNat_ofNat'
    have hle : (Frame.make msgType flags reqId payload).header.len.toNat ≤
        (Frame.make msgType flags reqId payload).payload.length :=
      hlen.trans_le (Nat.mod_le _ _)
    have htake := takeFrame_bytes hle []
    have hfield : takeU32 (Frame.make msgType flags reqId payload).bytes =
        some ((Frame.make msgType flags reqId payload).header.len,
          u16Bytes msgType ++ (u16Bytes flags ++ u64Bytes reqId) ++ payload) := by
      simp [Frame.bytes, FrameHeader.bytes, Frame.make, List.append_assoc]
    rw [List.append_nil] at htake
    rw [readFrame, hfield] at h
    dsimp only at h
    split at h
    · cases h
    next hmax =>
      rw [htake] at h
      -- The frame that was taken is the one that was sent, so its length field is right.
      have htaken := congrArg Frame.payload (Prod.mk.inj (Except.ok.inj h)).1
      have hwhole : payload.take (Frame.make msgType flags reqId payload).header.len.toNat =
          payload := htaken
      have hshort := List.length_take_le
        (Frame.make msgType flags reqId payload).header.len.toNat payload
      rw [hwhole] at hshort
      exact hshort.trans (UInt32.le_iff_toNat_le.mp (UInt32.not_lt.mp hmax))
  · intro h
    have hframed : (Frame.make msgType flags reqId payload).Framed := Frame.framed_make h
    have hread := readFrame_bytes hframed []
    rwa [List.append_nil] at hread

/-! ### What the server makes of it -/

/-- The blob store and the files after a put on a disk that works. -/
theorem putIfAbsent_works (z : Zstd) (hash : Hash) (raw : Bytes) (s : BlobStore) (d : DataDir) :
    ∃ entry b d', runCall (putIfAbsent z hash raw) s d none = (.ok entry, b, d') ∧
      (hash ∈ s.index → b = s ∧ d' = d) ∧
      (hash ∉ s.index →
        b.index.lookup hash = some (blobEntryAt z raw (d .blobsPack).length) ∧
          d' = putOnto z hash raw d none) := by
  rw [putIfAbsent_run]
  cases h : s.index.lookup hash with
  | some entry =>
      have hmem : hash ∈ s.index := Finmap.mem_of_lookup_eq_some h
      exact ⟨entry, s, d, rfl, fun _ => ⟨rfl, rfl⟩, fun hnot => absurd hmem hnot⟩
  | none =>
      have hmem : hash ∉ s.index := Finmap.lookup_eq_none.mp h
      exact ⟨_, _, _, rfl, fun hin => absurd hin hmem, fun _ => ⟨Finmap.lookup_insert _, rfl⟩⟩

/-- What a put leaves is read back: what was there, or what was put. -/
theorem get_after_put {z : Zstd} (hz : z.Lossless) {hash : Hash} {raw : Bytes} {s b : BlobStore}
    {d d' : DataDir} {entry : BlobIndexEntry}
    (hput : runCall (putIfAbsent z hash raw) s d none = (.ok entry, b, d'))
    (hshort : raw.length < 2 ^ 32) (hfits : (d' .blobsPack).length < 2 ^ 63) :
    b.get z (d' .blobsPack) hash =
      if hash ∈ s.index then s.get z (d .blobsPack) hash else .ok raw := by
  obtain ⟨entry', b', d'', hput', hfound, hstored⟩ := putIfAbsent_works z hash raw s d
  obtain ⟨-, hrest⟩ := Prod.mk.inj (hput.symm.trans hput')
  obtain ⟨rfl, rfl⟩ := Prod.mk.inj hrest
  by_cases hmem : hash ∈ s.index
  · obtain ⟨rfl, rfl⟩ := hfound hmem
    rw [if_pos hmem]
  · obtain ⟨hlookup, hdisk⟩ := hstored hmem
    rw [if_neg hmem]
    have hpack : d' .blobsPack = d .blobsPack ++ blobRecord z hash raw := by
      rw [hdisk]
      rfl
    refine get_of_packed hz hlookup ⟨(length_storedForm_le z raw).trans_lt hshort,
      d .blobsPack, [], by rw [hpack, List.append_nil], ?_, rfl⟩
    rwa [← hpack]

/-- **What the server makes of the append of a client**, on a disk that works: the payload is
checked; a good one is put into the blob store, and its turn into the turn store. -/
theorem serve_append (σ : Session) {a : Arrival} {req : AppendTurnRequest}
    (hmsg : a.frame.header.msgType = MsgType.appendTurn.toU16)
    (hparse : parseAppendTurn a.frame.payload a.frame.header.flags = .ok req)
    (hroot : req.fsRootHash = none) (hfault : a.fault = none) {p : UInt64 × UInt32}
    (hparent : a.shared.store.stores.turnStore.parentOf req.contextId req.parentTurnId =
      .ok p) :
    match req.checked k.zstd k.blake3 with
    | .error e => (handleFrame k σ a).1 = .error e
    | .ok raw => ∃ entry b d' record,
        runCall (putIfAbsent k.zstd req.contentHash raw) a.shared.store.stores.blobStore
            a.shared.disk none = (.ok entry, b, d') ∧
          record = req.args.record a.shared.store.stores.turnStore.nextTurnId p.1 p.2 a.now ∧
          (handleFrame k σ a).1 = .ok (Frame.make MsgType.appendTurn.toU16 0
            a.frame.header.reqId
            (encodeAppendAck req.contextId record.turnId record.depth record.payloadHash)) ∧
          (handleFrame k σ a).2.2.store.stores.blobStore = b ∧
          (handleFrame k σ a).2.2.disk .blobsPack = d' .blobsPack ∧
          (handleFrame k σ a).2.2.store.stores.turnStore =
            a.shared.store.stores.turnStore.after
              (req.args.entry a.shared.store.stores.turnStore.nextTurnId p a.now)
              (d' .turnsLog).length none := by
  have hserve : ∀ sh, serveRequest k σ sh a.now a.fault a.frame =
      serveAppendTurn k σ sh a.now a.fault a.frame.payload a.frame.header.flags := by
    intro sh
    simp [serveRequest, hmsg, MsgType.toU16]
  rw [handleFrame, hserve, serveAppendTurn, hparse, hfault]
  dsimp only [Shared.call, Arrival.active]
  rw [appendWithFs_run, Store.appendTurn_run, Stores.appendTurn_run, hroot]
  cases hraw : req.checked k.zstd k.blake3 with
  | error e => rfl
  | ok raw =>
      obtain ⟨entry, b, d', hput, -⟩ := putIfAbsent_works k.zstd req.contentHash raw
        a.shared.store.stores.blobStore a.shared.disk
      have hturn := appendTurn_outcome req.args a.now a.shared.store.stores.turnStore d' none
      rw [show a.shared.store.stores.turnStore.parentOf req.args.contextId
        req.args.parentTurnId = .ok p from hparent] at hturn
      simp only [Entry.stop, if_true] at hturn
      dsimp only
      rw [hput]
      dsimp only
      rw [hturn]
      dsimp only
      refine ⟨entry, b, d', _, rfl, rfl, rfl, ?_, ?_, ?_⟩
      · rw [Store.noted_with]
        rfl
      · simp [Served.conclude, respond, Shared.publish, Entry.onto, Entry.bytes, written]
      · rw [Store.noted_with]
        rfl

/-! ### The payload that is stored -/

/-- What the checks of `append_turn` let through. -/
theorem AppendRequest.checked_eq_ok {z : Zstd} {blake3 : Bytes → Hash} {r : AppendRequest}
    {raw : Bytes} :
    r.checked z blake3 = .ok raw ↔
      r.rawBytes z = .ok raw ∧ UInt32.ofNat raw.length = r.uncompressedLen ∧
        blake3 raw = r.contentHash := by
  rw [AppendRequest.checked]
  cases r.rawBytes z with
  | error e => simp [bind, Except.bind]
  | ok raw' =>
      simp only [bind, Except.bind, Except.ok.injEq]
      constructor
      · intro h
        split at h
        · cases h
        next hlen =>
          split at h
          · cases h
          next hhash =>
            cases h
            exact ⟨rfl, not_not.mp hlen, not_not.mp hhash⟩
      · rintro ⟨rfl, hlen, hhash⟩
        rw [if_neg (not_not.mpr hlen), if_neg (not_not.mpr hhash)]
        rfl

/-- The request of a client and what the handler finds. -/
def Found.arrival (found : Found) (frame : Frame) : Arrival := { toFound := found, frame }

/-- The server reads the request as it was sent and acknowledges it, and the turn that it has
put at the head of the context is that of the payload of the caller. -/
structure PayloadStored (k : Crates) (σ : Session) (found : Found) (frame : Frame)
    (r : ClientAppend String) : Prop where
  read : readFrame frame.bytes = .ok (frame, [])
  turn : ∃ record turnMeta head,
    (handleFrame k σ (found.arrival frame)).1 = .ok (Frame.make MsgType.appendTurn.toU16 0
        frame.header.reqId
        (encodeAppendAck r.contextId record.turnId record.depth record.payloadHash)) ∧
      record.turnId = found.shared.store.stores.turnStore.nextTurnId ∧
      let after := (handleFrame k σ (found.arrival frame)).2.2
      after.store.stores.turnStore.turns.lookup record.turnId = some record ∧
        after.store.stores.turnStore.turnMeta.lookup record.turnId = some turnMeta ∧
        after.store.stores.turnStore.heads.lookup r.contextId = some head ∧
        head.headTurnId = record.turnId ∧
        record.payloadHash = k.blake3 r.payload ∧
        turnMeta.uncompressedLen.toNat = r.payload.length ∧
        after.store.stores.blobStore.get k.zstd (after.disk .blobsPack) record.payloadHash =
          .ok r.payload

/-- A blob that is stored under the hash of the payload is the payload. -/
def Found.HoldsNoOther (k : Crates) (found : Found) (payload : Bytes) : Prop :=
  k.blake3 payload ∈ found.shared.store.stores.blobStore.index →
    found.shared.store.stores.blobStore.get k.zstd (found.shared.disk .blobsPack)
      (k.blake3 payload) = .ok payload

/-- The payload of a client passes the checks as itself or not at all. -/
theorem ClientAppend.checked_fields {r : ClientAppend String}
    (hcompression : r.compression = 0 ∨ r.compression = 1)
    (hcollision : ∀ raw, k.zstd.decodeAll r.payload = .ok raw →
      k.blake3 raw = k.blake3 r.payload → raw = r.payload) {raw : Bytes} :
    (r.fields k.blake3 none).checked k.zstd k.blake3 = .ok raw ↔
      raw = r.payload ∧ (r.compression = 1 → k.zstd.decodeAll r.payload = .ok r.payload) := by
  rw [AppendRequest.checked_eq_ok]
  change (r.fields k.blake3 none).rawBytes k.zstd = .ok raw ∧
    UInt32.ofNat raw.length = UInt32.ofNat r.payload.length ∧
      k.blake3 raw = k.blake3 r.payload ↔ _
  rcases hcompression with h | h
  · have hraw : (r.fields k.blake3 none).rawBytes k.zstd = .ok r.payload := if_pos h
    rw [hraw, h, Except.ok.injEq]
    constructor
    · rintro ⟨rfl, -, -⟩
      exact ⟨rfl, fun h => absurd h (by decide)⟩
    · rintro ⟨rfl, -⟩
      exact ⟨rfl, rfl, rfl⟩
  · have hraw : (r.fields k.blake3 none).rawBytes k.zstd = .ok raw ↔
        k.zstd.decodeAll r.payload = .ok raw := by
      have hne : (r.fields k.blake3 none).compression ≠ 0 := fun hzero => by
        rw [show r.compression = 0 from hzero] at h
        exact absurd h (by decide)
      rw [AppendRequest.rawBytes, if_neg hne,
        if_pos (show (r.fields k.blake3 none).compression = 1 from h)]
      cases hdecode : k.zstd.decodeAll r.payload with
      | error e =>
          rw [show k.zstd.decodeAll (r.fields k.blake3 none).payloadBytes = .error e from hdecode]
          simp
      | ok decoded =>
          rw [show k.zstd.decodeAll (r.fields k.blake3 none).payloadBytes = .ok decoded
            from hdecode]
          simp
    rw [hraw]
    constructor
    · rintro ⟨hdecode, -, hhash⟩
      obtain rfl := hcollision raw hdecode hhash
      exact ⟨rfl, fun _ => hdecode⟩
    · rintro ⟨rfl, hdecode⟩
      exact ⟨hdecode h, rfl, rfl⟩

/-- **Appends with a compression.** Both clients send the payload as it is. The server stores
it if the request fits a frame, no other payload is stored under its hash, and, where the
request names Zstandard, the payload is a frame of Zstandard that decodes to itself. -/
theorem compressed_append (hz : k.zstd.Lossless) (lib : ClientLib) (reqId : UInt64)
    (r : ClientAppend String) (hcompression : r.compression = 0 ∨ r.compression = 1)
    (hcollision : ∀ raw, k.zstd.decodeAll r.payload = .ok raw →
      k.blake3 raw = k.blake3 r.payload → raw = r.payload)
    (σ : Session) (found : Found) (hfault : found.fault = none) (p : UInt64 × UInt32)
    (hcontext : found.shared.store.stores.turnStore.parentOf r.contextId r.parentTurnId = .ok p)
    (hfits : (handleFrame k σ (found.arrival (lib.appendFrame k.blake3 reqId r))).2.2.disk.Fits) :
    PayloadStored k σ found (lib.appendFrame k.blake3 reqId r) r ↔
      (r.bytes utf8Bytes k.blake3 none).length ≤ maxFrameSize.toNat ∧
        found.HoldsNoOther k r.payload ∧
        (r.compression = 1 → k.zstd.decodeAll r.payload = .ok r.payload) := by
  have hframe := lib.appendFrame_eq k.blake3 reqId r
  have hparse : (r.bytes utf8Bytes k.blake3 none).length ≤ maxFrameSize.toNat →
      parseAppendTurn (found.arrival (lib.appendFrame k.blake3 reqId r)).frame.payload
          (found.arrival (lib.appendFrame k.blake3 reqId r)).frame.header.flags =
        .ok (r.fields k.blake3 none) := by
    intro hsize
    rw [hframe]
    exact parseAppendTurn_payload r none hsize
  have hserved : (r.bytes utf8Bytes k.blake3 none).length ≤ maxFrameSize.toNat → _ :=
    fun hsize => serve_append (k := k) σ (by rw [hframe]; rfl) (hparse hsize) rfl hfault hcontext
  have hshort : (r.bytes utf8Bytes k.blake3 none).length ≤ maxFrameSize.toNat →
      r.payload.length < 2 ^ 32 := by
    intro hsize
    have hmax := maxFrameSize.toNat_lt
    simp only [ClientAppend.bytes, List.length_append] at hsize
    omega
  constructor
  · rintro ⟨hread, record, turnMeta, head, hack, -, -, -, -, -, hhash, -, hblob⟩
    rw [hframe] at hread
    have hsize := readFrame_make_iff.mp hread
    have hserve := hserved hsize
    cases hchecked : (r.fields k.blake3 none).checked k.zstd k.blake3 with
    | error e =>
        rw [hchecked] at hserve
        cases hack.symm.trans hserve
    | ok raw =>
        rw [hchecked] at hserve
        obtain ⟨entry, b, d', record', hput, -, -, hb, hpack, -⟩ := hserve
        obtain ⟨rfl, hdecode⟩ :=
          (ClientAppend.checked_fields hcompression hcollision).mp hchecked
        refine ⟨hsize, fun hmem => ?_, hdecode⟩
        obtain ⟨entry', b', d'', hput', hfound, -⟩ := putIfAbsent_works k.zstd
          (k.blake3 r.payload) r.payload found.shared.store.stores.blobStore found.shared.disk
        obtain ⟨-, hrest⟩ := Prod.mk.inj (hput.symm.trans hput')
        obtain ⟨rfl, rfl⟩ := Prod.mk.inj hrest
        obtain ⟨rfl, rfl⟩ := hfound hmem
        rw [hb, hpack, hhash] at hblob
        exact hblob
  · rintro ⟨hsize, hother, hdecode⟩
    have hserve := hserved hsize
    rw [(ClientAppend.checked_fields hcompression hcollision).mpr ⟨rfl, hdecode⟩] at hserve
    obtain ⟨entry, b, d', record, hput, hrecord, hack, hb, hpack, hturns⟩ := hserve
    have hget := get_after_put hz hput (hshort hsize) (hpack ▸ hfits .blobsPack)
    refine ⟨by rw [hframe]; exact readFrame_make_iff.mpr hsize, record,
      (r.fields k.blake3 none).args.turnMeta, (r.fields k.blake3 none).args.head record, hack,
      by rw [hrecord]; rfl, ?_⟩
    dsimp only
    rw [hturns, hb, hpack]
    refine ⟨?_, ?_, ?_, rfl, by rw [hrecord]; rfl, toNat_length (hshort hsize), ?_⟩
    · rw [hrecord]
      exact Finmap.lookup_insert _
    · rw [hrecord]
      exact Finmap.lookup_insert _
    · rw [hrecord]
      exact Finmap.lookup_insert _
    · rw [show record.payloadHash = k.blake3 r.payload by rw [hrecord]; rfl]
      refine hget.trans ?_
      split
      next hmem => exact hother hmem
      next => rfl

/-- A server with one context. -/
def oneContext : Found where
  shared := (handleFrame .plain (Session.new 1 "")
    { frame := Frame.make MsgType.ctxCreate.toU16 0 1 (u64Bytes 0), shared := Shared.empty,
      now := 0, fault := none }).2.2
  now := 1
  fault := none

/-- The append of a client tag to the context, with a compression. -/
def tagAppend (compression : UInt32) : ClientAppend String where
  contextId := 1
  parentTurnId := 0
  typeId := "t"
  typeVersion := 1
  payload := taggedPayload
  idempotencyKey := []
  encoding := 1
  compression := compression

set_option maxRecDepth 4000 in
/-- `compressed_append` for the append of a client tag without compression. -/
theorem compressed_append_tag :
    PayloadStored .plain (Session.new 1 "") oneContext
      (ClientLib.go.appendFrame Crates.plain.blake3 2 (tagAppend 0)) (tagAppend 0) :=
  (compressed_append (k := .plain) rawBlockZstd_lossless .go 2 (tagAppend 0) (Or.inl rfl)
    (fun raw h => by cases h) (Session.new 1 "") oneContext rfl (0, 0) (by decide)
    (by decide)).mpr
    ⟨by decide, fun hmem => absurd hmem (by decide), fun h => by cases h⟩

set_option maxRecDepth 4000 in
/-- **A payload that no one has compressed** is not decompressed: the server hangs up on the
append of either client that names Zstandard. -/
theorem compressed_append_refused :
    Crates.plain.zstd.Lossless ∧
      oneContext.shared.store.stores.turnStore.parentOf 1 0 = .ok (0, 0) ∧
      ∀ lib : ClientLib, ¬ PayloadStored .plain (Session.new 1 "") oneContext
        (lib.appendFrame Crates.plain.blake3 2 (tagAppend 1)) (tagAppend 1) := by
  refine ⟨rawBlockZstd_lossless, by decide, ?_⟩
  rintro lib ⟨-, record, turnMeta, head, hack, -⟩
  rw [ClientLib.appendFrame_eq] at hack
  have herror : ∃ e, (handleFrame .plain (Session.new 1 "") (oneContext.arrival
      (Frame.make MsgType.appendTurn.toU16 0 2
        ((tagAppend 1).bytes utf8Bytes Crates.plain.blake3 none)))).1 =
        .error (.invalidInput ("zstd decode failed: " ++ e)) :=
    ⟨"Unknown frame descriptor", by decide⟩
  obtain ⟨e, he⟩ := herror
  rw [he] at hack
  cases hack

end Cxdb
