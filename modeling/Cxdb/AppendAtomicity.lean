import Cxdb.Handler
import Cxdb.StoreCalls

/-!
# An Append Request as a Whole

What the arm of `AppendTurn` does to the store, against every fault: the checks of the
payload, the put of the blob, the append, the metadata and the attachment, each of which can
fail after the ones before it took effect.

## Main results

* `appendWithFs_outcome`: the four ways an `AppendTurn` can go.
* `append_atomic`: a request that ends without an ack leaves the turns, the heads, the
  snapshot roots, the cache and the indexes as they were exactly when it is turned away, or
  fails before the last file of the turn store.
-/

open ByteFormat FaultyDisk

namespace Cxdb

variable {k : Crates}

/-! ### The outcome -/

/-- The snapshot root of an append, if there is one, is a blob, at the latest that of the
append itself, and its record can be written. -/
def AppendTurnRequest.FsReady (req : AppendTurnRequest) (s : Stores)
    (fault : Option (Fault DataFile)) : Prop :=
  ∀ root ∈ req.fsRootHash,
    (root = req.contentHash ∨ root ∈ s.blobStore.index) ∧ rootStop fault = none

/-- The calls of an `AppendTurn`: the append, and if it returns, the attachment. -/
theorem appendWithFs_run (req : AppendTurnRequest) (now : UInt64) (s : Store) (d : DataDir)
    (fault : Option (Fault DataFile)) :
    runCall (appendWithFs k req now) s d fault =
      match runCall (Store.appendTurn k req.toAppendRequest now) s d fault with
      | (.error e, s', d') => (.error e, s', d')
      | (.ok (record, metadata), s', d') =>
        match req.fsRootHash with
        | none => (.ok (record, metadata), s', d')
        | some root =>
            let r := runCall (Stores.attachFs record.turnId root) s'.stores d' fault
            (r.1.map fun _ => (record, metadata), { s' with stores := r.2.1 }, r.2.2) := by
  rw [appendWithFs, (Store.appendTurn_keepsFault _ _).runCall_bind]
  rcases runCall (Store.appendTurn k req.toAppendRequest now) s d fault with
    ⟨e | ⟨record, metadata⟩, s', d'⟩
  · rfl
  · dsimp only
    cases req.fsRootHash with
    | none => rfl
    | some root =>
        dsimp only
        have hrun := onStores_run (Stores.attachFs record.turnId root) s' d' fault
        rw [runCall_bind]
        rw [runCall] at hrun
        generalize onStores (Stores.attachFs record.turnId root) ⟨s', d', fault⟩ = r at hrun ⊢
        obtain ⟨u, w⟩ | ⟨e, w⟩ := r
        · obtain ⟨hx, hrest⟩ := Prod.mk.inj hrun
          obtain ⟨hmem, hdisk⟩ := Prod.mk.inj hrest
          rw [← hx, ← hmem, ← hdisk]
          rfl
        · obtain ⟨hx, hrest⟩ := Prod.mk.inj hrun
          obtain ⟨hmem, hdisk⟩ := Prod.mk.inj hrest
          rw [← hx, ← hmem, ← hdisk]
          rfl

/-- What an `AppendTurn` comes to: what it returns, and how it leaves the store. -/
inductive AppendTurnRequest.Outcome (k : Crates) (req : AppendTurnRequest) (now : UInt64)
    (s : Store) (fault : Option (Fault DataFile)) :
    Except StoreError (TurnRecord × Option ContextMetadata) → Store → Prop where
  /-- The append does not get as far as the turn store. -/
  | stopped {e : StoreError} {stores : Stores}
      (hreach : ¬req.Reaches k.zstd k.blake3 s.stores fault)
      (hturns : stores.turnStore = s.stores.turnStore)
      (hroots : stores.fsRoots = s.stores.fsRoots) :
      Outcome k req now s fault (.error e) { s with stores }
  /-- A file of the turn store cannot be written. -/
  | cut {stores : Stores} {p : UInt64 × UInt32} {len : ℕ} {f : Fault DataFile}
      (hreach : req.Reaches k.zstd k.blake3 s.stores fault) (hfault : fault = some f)
      (hfile : f.file ∈ turnFiles)
      (hparent : s.stores.turnStore.parentOf req.contextId req.parentTurnId = .ok p)
      (hturns : stores.turnStore =
        s.stores.turnStore.after (req.args.entry s.stores.turnStore.nextTurnId p now) len (some f))
      (hroots : stores.fsRoots = s.stores.fsRoots) :
      Outcome k req now s fault (.error writeError) { s with stores }
  /-- The turn is appended, and the attachment fails. -/
  | unattached {e : StoreError} {stores : Stores} {p : UInt64 × UInt32} {len : ℕ} {raw : Bytes}
      (hreach : req.Reaches k.zstd k.blake3 s.stores fault) (hspares : Spares fault turnFiles)
      (hready : ¬req.FsReady s.stores fault) (hraw : req.checked k.zstd k.blake3 = .ok raw)
      (hparent : s.stores.turnStore.parentOf req.contextId req.parentTurnId = .ok p)
      (hturns : stores.turnStore =
        s.stores.turnStore.after (req.args.entry s.stores.turnStore.nextTurnId p now) len none)
      (hroots : stores.fsRoots = s.stores.fsRoots) :
      Outcome k req now s fault (.error e)
        { (s.noted k req.contextId raw now p.2).2 with stores }
  /-- The turn is appended and its snapshot attached. -/
  | appended {stores : Stores} {p : UInt64 × UInt32} {len : ℕ} {raw : Bytes}
      (hreach : req.Reaches k.zstd k.blake3 s.stores fault) (hspares : Spares fault turnFiles)
      (hready : req.FsReady s.stores fault) (hraw : req.checked k.zstd k.blake3 = .ok raw)
      (hparent : s.stores.turnStore.parentOf req.contextId req.parentTurnId = .ok p)
      (hturns : stores.turnStore =
        s.stores.turnStore.after (req.args.entry s.stores.turnStore.nextTurnId p now) len none) :
      Outcome k req now s fault
        (.ok (req.args.record s.stores.turnStore.nextTurnId p.1 p.2 now,
          (s.noted k req.contextId raw now p.2).1))
        { (s.noted k req.contextId raw now p.2).2 with stores }

/-- The three stores may be set before or after the context is noted. -/
theorem Store.noted_with (s : Store) (stores : Stores) (contextId : UInt64) (payload : Bytes)
    (createdAtUnixMs : UInt64) (depth : UInt32) :
    { s with stores }.noted k contextId payload createdAtUnixMs depth =
      ((s.noted k contextId payload createdAtUnixMs depth).1,
        { (s.noted k contextId payload createdAtUnixMs depth).2 with stores }) := by
  unfold Store.noted
  dsimp only
  cases s.contextMetadataCache.lookup contextId <;> rfl

/-- The fault that stops a call is the one there is, in a file that the call writes. -/
theorem Entry.stop_eq_some {w : Entry} {fault : Option (Fault DataFile)} {f : Fault DataFile}
    (h : w.stop fault = some f) : fault = some f ∧ f.file ∈ w.files := by
  cases fault with
  | none => cases h
  | some g =>
      rw [Entry.stop] at h
      split at h
      next hfile =>
        cases h
        exact ⟨rfl, hfile⟩
      next => cases h

/-- **The outcome of an `AppendTurn`**, against every fault. -/
theorem appendWithFs_outcome {req : AppendTurnRequest} {now : UInt64} {s s' : Store}
    {d d' : DataDir} {fault : Option (Fault DataFile)}
    {x : Except StoreError (TurnRecord × Option ContextMetadata)}
    (h : runCall (appendWithFs k req now) s d fault = (x, s', d')) :
    req.Outcome k now s fault x s' := by
  rw [appendWithFs_run, Store.appendTurn_run] at h
  rcases hrun : runCall (Stores.appendTurn k.zstd k.blake3 req.toAppendRequest now) s.stores d
    fault with ⟨y, stores, d₁⟩
  rw [hrun] at h
  obtain ⟨hroots, ⟨hnot, ⟨e, rfl⟩, hturns⟩ |
    ⟨hreach, p, len, hparent, hafter, hy, hindex⟩⟩ := Stores.appendTurn_outcome hrun
  · obtain ⟨rfl, rfl, -⟩ := by simpa using h
    exact .stopped hnot hturns hroots
  · have hspares := Entry.stop_eq_none (req.args.entry s.stores.turnStore.nextTurnId p now) fault
    rw [show (req.args.entry s.stores.turnStore.nextTurnId p now).files = turnFiles from rfl]
      at hspares
    cases hstop : (req.args.entry s.stores.turnStore.nextTurnId p now).stop fault with
    | some f =>
        rw [hstop] at hafter
        rw [hstop, if_neg (Option.some_ne_none f)] at hy
        subst hy
        obtain ⟨rfl, rfl, -⟩ := by simpa using h
        obtain ⟨rfl, hfile⟩ := Entry.stop_eq_some hstop
        exact .cut hreach rfl hfile hparent hafter hroots
    | none =>
        rw [hstop] at hafter
        rw [hstop, if_pos rfl] at hy
        subst hy
        obtain ⟨raw, hraw⟩ := hreach.1
        have hnoted := Store.noted_with (k := k) s stores req.contextId raw now p.2
        rw [hraw] at h
        dsimp only [AppendArgs.record] at h
        rw [hnoted] at h
        cases hroot : req.fsRootHash with
        | none =>
            rw [hroot] at h
            obtain ⟨rfl, rfl, -⟩ := by simpa using h
            refine .appended hreach (hspares.mp hstop) ?_ hraw hparent hafter
            simp [AppendTurnRequest.FsReady, hroot]
        | some root =>
            rw [hroot] at h
            dsimp only at h
            have hready : req.FsReady s.stores fault ↔
                root ∈ stores.blobStore.index ∧ rootStop fault = none := by
              simp [AppendTurnRequest.FsReady, hroot, hindex]
            have hturn : s.stores.turnStore.nextTurnId ∈ stores.turnStore.turns := by
              rw [hafter]
              exact Finmap.mem_insert.mpr (Or.inl rfl)
            obtain ⟨t, ht⟩ := Finmap.mem_iff.mp hturn
            rw [Stores.attachFs_run, TurnStore.getTurn, ht] at h
            by_cases hblob : root ∈ stores.blobStore.index
            · by_cases hstop' : rootStop fault = none
              · obtain ⟨rfl, rfl, -⟩ := by
                  simpa [BlobStore.contains, hblob, hstop', Except.map] using h
                exact .appended hreach (hspares.mp hstop) (hready.mpr ⟨hblob, hstop'⟩) hraw
                  hparent hafter
              · obtain ⟨rfl, rfl, -⟩ := by
                  simpa [BlobStore.contains, hblob, hstop', Except.map] using h
                exact .unattached hreach (hspares.mp hstop) (fun hr => hstop' (hready.mp hr).2)
                  hraw hparent hafter hroots
            · obtain ⟨rfl, rfl, -⟩ := by
                simpa [BlobStore.contains, hblob, Except.map] using h
              exact .unattached hreach (hspares.mp hstop) (fun hr => hblob (hready.mp hr).1)
                hraw hparent hafter hroots

/-- The calls of an `AppendTurn` return when all of them do. -/
theorem appendWithFs_isOk (req : AppendTurnRequest) (now : UInt64) (s : Store) (d : DataDir)
    (fault : Option (Fault DataFile)) :
    (∃ r, (runCall (appendWithFs k req now) s d fault).1 = .ok r) ↔
      req.Reaches k.zstd k.blake3 s.stores fault ∧ Spares fault turnFiles ∧
        req.FsReady s.stores fault := by
  rcases hrun : runCall (appendWithFs k req now) s d fault with ⟨x, s', d'⟩
  cases appendWithFs_outcome hrun with
  | stopped hreach => simp [hreach]
  | cut hreach hfault hfile => simp [Spares, hfault, hfile]
  | unattached hreach hspares hready => simp [hready]
  | appended hreach hspares hready => simp [hreach, hspares, hready]

/-! ### Atomicity -/

/-- What the request of an append must leave alone unless it is acknowledged. -/
structure Store.Untouched (s s' : Store) : Prop where
  turns : s'.stores.turnStore.turns = s.stores.turnStore.turns
  turnMeta : s'.stores.turnStore.turnMeta = s.stores.turnStore.turnMeta
  heads : s'.stores.turnStore.heads = s.stores.turnStore.heads
  fsRoots : s'.stores.fsRoots = s.stores.fsRoots
  contextMetadataCache : s'.contextMetadataCache = s.contextMetadataCache
  secondaryIndexes : s'.secondaryIndexes = s.secondaryIndexes

/-- The request gets its ack: the arm gives one, and it can be `written`. -/
def Arrival.Acked (k : Crates) (σ : Session) (a : Arrival) (written : Bool) : Prop :=
  written = true ∧ ∃ frame, (handleFrame k σ a).1 = .ok frame ∧
    frame.header.msgType = MsgType.appendTurn.toU16

/-- The request of an append is carried out whole or not at all: it is turned away before
the append, or a write before the one of the head fails, or nothing fails. -/
def Arrival.AllOrNothing (k : Crates) (a : Arrival) (written : Bool) : Prop :=
  ∀ req, parseAppendTurn a.frame.payload a.frame.header.flags = .ok req →
    req.Reaches k.zstd k.blake3 a.shared.store.stores a.fault →
      Spares a.fault [.turnsLog, .turnsIdx, .turnsMeta] →
        Spares a.fault [.headsTbl] ∧ req.FsReady a.shared.store.stores a.fault ∧ written = true

/-- What the loop makes of an append. -/
theorem handleFrame_appendTurn (σ : Session) {a : Arrival}
    (hmsg : a.frame.header.msgType = MsgType.appendTurn.toU16) :
    match parseAppendTurn a.frame.payload a.frame.header.flags with
    | .error e => (handleFrame k σ a).1 = .error e ∧
        (handleFrame k σ a).2.2.store = a.shared.store
    | .ok req =>
        (handleFrame k σ a).2.2.store =
            (runCall (appendWithFs k req a.now) a.shared.store a.shared.disk a.fault).2.1 ∧
          match (runCall (appendWithFs k req a.now) a.shared.store a.shared.disk a.fault).1 with
          | .error e => (handleFrame k σ a).1 = .error e
          | .ok (record, _) => (handleFrame k σ a).1 =
              .ok (Frame.make MsgType.appendTurn.toU16 0 a.frame.header.reqId
                (encodeAppendAck req.contextId record.turnId record.depth record.payloadHash)) := by
  have hserve : ∀ sh, serveRequest k σ sh a.now a.fault a.frame =
      serveAppendTurn k σ sh a.now a.fault a.frame.payload a.frame.header.flags := by
    intro sh
    simp [serveRequest, hmsg, MsgType.toU16]
  rw [handleFrame, hserve, serveAppendTurn]
  cases parseAppendTurn a.frame.payload a.frame.header.flags with
  | error e => exact ⟨rfl, rfl⟩
  | ok req =>
      dsimp only [Shared.call, Arrival.active]
      rcases runCall (appendWithFs k req a.now) a.shared.store a.shared.disk a.fault with
        ⟨e | ⟨record, metadata⟩, s', d'⟩
      · exact ⟨rfl, rfl⟩
      · exact ⟨rfl, rfl⟩

/-- Part of the files is spared. -/
theorem Spares.mono {fault : Option (Fault DataFile)} {files files' : List DataFile}
    (h : Spares fault files) (hsub : files' ⊆ files) : Spares fault files' :=
  fun f hf hmem => h f hf (hsub hmem)

/-- A turn with a new id makes a difference. -/
theorem Store.Untouched.not_insert {s s' : Store} (h : s.Untouched s') (record : TurnRecord)
    (hturns : s'.stores.turnStore.turns =
      s.stores.turnStore.turns.insert record.turnId record) :
    record.turnId ∈ s.stores.turnStore.turns := by
  rw [← h.turns, hturns]
  exact Finmap.mem_insert.mpr (Or.inl rfl)

/-- A write that fails before the one of the head has only taken the id. -/
theorem Store.Untouched.of_cut {s : Store} {stores : Stores} {w : Entry} {len : ℕ}
    {f : Fault DataFile} (hfile : f.file ≠ .headsTbl) (hturn : w.turn.isSome)
    (hturns : stores.turnStore = s.stores.turnStore.after w len (some f))
    (hroots : stores.fsRoots = s.stores.fsRoots) : s.Untouched { s with stores } := by
  obtain ⟨t, ht⟩ := Option.isSome_iff_exists.mp hturn
  have hmaps : stores.turnStore =
      { s.stores.turnStore with nextTurnId := s.stores.turnStore.nextTurnId + 1 } := by
    rw [hturns]
    simp [TurnStore.after, hfile, TurnStore.takeId, ht]
  exact ⟨(congrArg TurnStore.turns hmaps :), (congrArg TurnStore.turnMeta hmaps :),
    (congrArg TurnStore.heads hmaps :), hroots, rfl, rfl⟩

/-- **Atomicity of an append request.** An append request that ends without its ack leaves
the store alone, blobs apart, if it is all or nothing. -/
theorem append_atomic (σ : Session) (a : Arrival) (written : Bool)
    (hmsg : a.frame.header.msgType = MsgType.appendTurn.toU16) :
    (a.AllOrNothing k written → ¬a.Acked k σ written →
      a.shared.store.Untouched (handleFrame k σ a).2.2.store) ∧
    (a.shared.store.stores.turnStore.nextTurnId ∉ a.shared.store.stores.turnStore.turns →
      (¬a.Acked k σ written → a.shared.store.Untouched (handleFrame k σ a).2.2.store) →
        a.AllOrNothing k written) := by
  have hframe := handleFrame_appendTurn (k := k) σ hmsg
  cases hparse : parseAppendTurn a.frame.payload a.frame.header.flags with
  | error e =>
      rw [hparse] at hframe
      rw [hframe.2]
      refine ⟨fun _ _ => ⟨rfl, rfl, rfl, rfl, rfl, rfl⟩, fun _ _ req hreq => ?_⟩
      rw [hparse] at hreq
      cases hreq
  | ok req =>
      rw [hparse] at hframe
      obtain ⟨hstore, hresponse⟩ := hframe
      rw [hstore]
      rcases hrun : runCall (appendWithFs k req a.now) a.shared.store a.shared.disk a.fault with
        ⟨x, s', d'⟩
      rw [hrun] at hresponse
      have hwhole : a.AllOrNothing k written ↔
          (req.Reaches k.zstd k.blake3 a.shared.store.stores a.fault →
            Spares a.fault [.turnsLog, .turnsIdx, .turnsMeta] →
              Spares a.fault [.headsTbl] ∧ req.FsReady a.shared.store.stores a.fault ∧
                written = true) := by
        simp [Arrival.AllOrNothing, hparse]
      rw [hwhole]
      cases appendWithFs_outcome hrun with
      | stopped hreach hturns hroots =>
          refine ⟨fun _ _ => ⟨?_, ?_, ?_, hroots, rfl, rfl⟩, fun _ _ h => absurd h hreach⟩ <;>
            exact congrArg _ hturns
      | @cut stores p len f hreach hfault hfile hparent hturns hroots =>
          by_cases hhead : f.file = .headsTbl
          · have hspares : Spares a.fault [.turnsLog, .turnsIdx, .turnsMeta] := by
              simp [Spares, hfault, hhead]
            have hnot : ¬Spares a.fault [.headsTbl] := by
              simp [Spares, hfault, hhead]
            refine ⟨fun hall _ => absurd (hall hreach hspares).1 hnot, fun hfresh hclaim => ?_⟩
            have hacked : ¬a.Acked k σ written := by
              rintro ⟨-, frame, hok, -⟩
              rw [hresponse] at hok
              cases hok
            refine absurd ((hclaim hacked).not_insert
              (req.args.record _ p.1 p.2 a.now) ?_) hfresh
            rw [hturns]
            simp only [TurnStore.after, hhead, if_true]
            rfl
          · refine ⟨fun _ _ => .of_cut hhead rfl hturns hroots, fun _ _ _ hspares => ?_⟩
            simp only [turnFiles, List.mem_cons, List.not_mem_nil, or_false, hhead] at hfile
            exact absurd (by simpa using hfile) (hspares f hfault)
      | @unattached e stores p len raw hreach hspares hready hraw hparent hturns hroots =>
          have hspares' : Spares a.fault [.turnsLog, .turnsIdx, .turnsMeta] :=
            hspares.mono (by decide)
          refine ⟨fun hall _ => absurd (hall hreach hspares').2.1 hready, fun hfresh hclaim => ?_⟩
          have hacked : ¬a.Acked k σ written := by
            rintro ⟨-, frame, hok, -⟩
            rw [hresponse] at hok
            cases hok
          refine absurd ((hclaim hacked).not_insert
            (req.args.record _ p.1 p.2 a.now) ?_) hfresh
          rw [hturns]
          rfl
      | @appended stores p len raw hreach hspares hready hraw hparent hturns =>
          have hspares' : Spares a.fault [.turnsLog, .turnsIdx, .turnsMeta] :=
            hspares.mono (by decide)
          have hacked : a.Acked k σ written ↔ written = true :=
            ⟨And.left, fun h => ⟨h, _, hresponse, rfl⟩⟩
          rw [hacked]
          refine ⟨fun hall hnot => absurd (hall hreach hspares').2.2 hnot,
            fun hfresh hclaim _ _ => ⟨hspares.mono (by decide), hready, ?_⟩⟩
          by_contra hnot
          refine hfresh ((hclaim hnot).not_insert
            (req.args.record _ p.1 p.2 a.now) ?_)
          rw [hturns]
          rfl

/-- An append of the empty payload with a snapshot root. -/
def snapshotAppend (contextId : UInt64) (fsRootHash : Hash) : AppendTurnRequest :=
  { contextId, parentTurnId := 0, declaredTypeId := "", declaredTypeVersion := 1, encoding := 1,
    compression := 0, uncompressedLen := 0, contentHash := emptyHash, payloadBytes := [],
    idempotencyKey := [], fsRootHash := some fsRootHash }

/-- The append to the first context, with the snapshot root `fsRootHash`; the context was
created by the same connection. -/
def snapshotArrival (fsRootHash : Hash) : Arrival :=
  let created := handleFrame .plain (Session.new 1 "")
    { frame := Frame.make MsgType.ctxCreate.toU16 0 1 (u64Bytes 0), shared := Shared.empty,
      now := 0, fault := none }
  { frame := Frame.make MsgType.appendTurn.toU16 1 2 (snapshotAppend 1 fsRootHash).encode
    shared := created.2.2, now := 1, fault := none }

set_option maxRecDepth 4000 in
/-- `append_atomic` for an append that fails in the log. -/
theorem append_atomic_cutInLog :
    let a := { snapshotArrival emptyHash with fault := some ⟨.turnsLog, 10⟩ }
    ¬a.Acked .plain (Session.new 1 "") true ∧
      a.shared.store.Untouched (handleFrame .plain (Session.new 1 "") a).2.2.store := by
  intro a
  have hacked : ¬a.Acked .plain (Session.new 1 "") true := by
    have herror : (handleFrame .plain (Session.new 1 "") a).1 = .error writeError := by
      decide
    rintro ⟨-, frame, hok, -⟩
    rw [herror] at hok
    cases hok
  have hwhole : a.AllOrNothing .plain true := fun _ _ _ hspares =>
    absurd (by decide) (hspares ⟨.turnsLog, 10⟩ rfl)
  exact ⟨hacked, (append_atomic (Session.new 1 "") a true rfl).1 hwhole hacked⟩

set_option maxRecDepth 4000 in
/-- **A snapshot that is not stored leaves its turn behind.** -/
theorem append_leaves_turn :
    let a := snapshotArrival (List.Vector.replicate 32 1)
    a.frame.header.msgType = MsgType.appendTurn.toU16 ∧
      (∀ written, ¬a.Acked .plain (Session.new 1 "") written) ∧
      ¬a.shared.store.Untouched (handleFrame .plain (Session.new 1 "") a).2.2.store := by
  intro a
  have herror : (handleFrame .plain (Session.new 1 "") a).1 =
      .error (.notFound "fs root tree blob") := by decide
  have hturns : (handleFrame .plain (Session.new 1 "") a).2.2.store.stores.turnStore.turns ≠
      a.shared.store.stores.turnStore.turns := by decide
  refine ⟨rfl, ?_, fun h => hturns h.turns⟩
  rintro written ⟨-, frame, hok, -⟩
  rw [herror] at hok
  cases hok

end Cxdb
