import Cxdb.StoreSystem

/-!
# The Parts of a Store Call

A call of the store is made of at most one put and one call of the turn store, in this
order. `StoreEvent.put?` and `StoreEvent.call?` say which, and a condition on either can be
looked at in the state before the call: the put does not change what the turn store sees.

## Main results

* `StoreStep.parts`: a step of the store is a run of its parts.
* `partsRun`: a run of the store is a run of its parts, and every turn in it comes after a
  put of its payload.
-/

open ByteFormat FaultyDisk RecordLog Transition

namespace Cxdb

/-! ### The parts of a step -/

section

variable (z : Zstd) (blake3 : Bytes → Hash) (m : StoreSystem)

/-- The put that an event makes. -/
def StoreEvent.put? (e : StoreEvent) : Option BlobEvent :=
  match e with
  | .opened => none
  | .acked c _ _ | .rejected c _ _ => do
      let s ← m.proc
      let (hash, raw) ← c.blob z blake3
      some (if hash ∈ s.blobStore.index then .found hash raw else .stored hash raw)
  | .crashed c _ f => do
      let s ← m.proc
      let (hash, raw) ← c.blob z blake3
      some (if hash ∈ s.blobStore.index then .found hash raw
        else if f.file ∈ blobFiles then .crashed hash raw f else .stored hash raw)

/-- The call of the turn store that an event makes; one that is rejected does nothing. -/
def StoreEvent.call? (e : StoreEvent) : Option TurnEvent :=
  match e with
  | .opened | .rejected _ _ _ => none
  | .acked c now _ => do
      let s ← m.proc
      let tc ← c.turnCall
      let w ← (s.turnStore.entryOf now tc).toOption
      some (.acked tc now w)
  | .crashed c now f =>
      if f.file ∈ turnFiles then do
        let s ← m.proc
        let tc ← c.turnCall
        let w ← (s.turnStore.entryOf now tc).toOption
        some (.crashed tc now f w)
      else none

/-- The attachment that an event makes. -/
def StoreEvent.attach? : StoreEvent → Option PartEvent
  | .acked (.attachFs turnId fsRootHash) _ _ => some (.attached turnId fsRootHash)
  | .crashed (.attachFs turnId fsRootHash) _ f => some (.attachCrashed turnId fsRootHash f)
  | _ => none

/-- The parts of an event, in order. -/
def StoreEvent.parts (e : StoreEvent) : List PartEvent :=
  match e with
  | .opened => [.opened]
  | e =>
      ((e.put? z blake3 m).map PartEvent.put).toList ++
        (((e.call? m).map PartEvent.call).toList ++ e.attach?.toList)

end

/-- A condition on the puts and one on the calls of the turn store. -/
def PartGuard (B : BlobSystem → BlobEvent → Prop) (T : TurnSystem → TurnEvent → Prop)
    (m : StoreSystem) : PartEvent → Prop
  | .put e => B m.blobs e
  | .call e => T m.turns e
  | .opened | .attached _ _ | .attachCrashed _ _ _ => True

theorem notMem_turnFiles {file : DataFile} (h : file ∈ blobFiles) : file ∉ turnFiles := by
  revert h
  cases file <;> decide

/-- The errors of the checks are not those of a write. -/
theorem AppendRequest.checked_ne_writeError (z : Zstd) (blake3 : Bytes → Hash)
    (r : AppendRequest) : r.checked z blake3 ≠ .error writeError := by
  have hraw : r.rawBytes z ≠ .error writeError := by
    unfold AppendRequest.rawBytes
    split
    · simp
    · split
      · split <;> simp [writeError]
      · simp [writeError]
  intro h
  cases hr : r.rawBytes z with
  | error e =>
      obtain rfl : e = writeError := by
        simpa [AppendRequest.checked, hr, bind, Except.bind] using h
      exact hraw hr
  | ok raw =>
      by_cases hlen : UInt32.ofNat raw.length = r.uncompressedLen <;>
        by_cases hhash : blake3 raw = r.contentHash <;>
        simp [AppendRequest.checked, hr, bind, Except.bind, hlen, hhash, writeError, throw,
          throwThe, MonadExceptOf.throw, pure, Except.pure] at h

/-- The errors of a lookup are not those of a write. -/
theorem entryOf_ne_writeError (s : TurnStore) (now : UInt64) (c : TurnCall) :
    s.entryOf now c ≠ .error writeError := by
  have hbase : ∀ base, s.baseOf base ≠ .error writeError := by
    intro base
    unfold TurnStore.baseOf
    split
    · simp
    · split <;> simp [writeError]
  cases c with
  | createContext base | forkContext base =>
      intro h
      simp only [TurnStore.entryOf] at h
      cases hb : s.baseOf base with
      | error e => simp [hb, Except.map] at h; exact hbase base (h ▸ hb)
      | ok b => simp [hb, Except.map] at h
  | appendTurn a =>
      intro h
      simp only [TurnStore.entryOf] at h
      cases hp : s.parentOf a.contextId a.parentTurnId with
      | ok p => simp [hp, Except.map] at h
      | error e =>
          obtain rfl : e = writeError := by simpa [hp, Except.map] using h
          unfold TurnStore.parentOf at hp
          split at hp
          · split at hp <;> simp [writeError] at hp
          · split at hp
            · simp [writeError] at hp
            · split at hp
              · simp at hp
              · split at hp <;> simp [writeError] at hp

/-- A call of the turn store that returns has an entry. -/
theorem entryOf_of_run_ok {c : TurnCall} {now : UInt64} {s s' : TurnStore} {d d' : DataDir}
    {fault : Option (Fault DataFile)} {reply : TurnReply}
    (h : runCall (c.run now) s d fault = (.ok reply, s', d')) :
    ∃ w, s.entryOf now c = .ok w := by
  rw [TurnCall.run_eq] at h
  cases hw : s.entryOf now c with
  | error e => simp [hw] at h
  | ok w => exact ⟨w, rfl⟩

/-- A call of the turn store that is cut off has an entry, and is cut off in its files. -/
theorem entryOf_of_run_writeError {c : TurnCall} {now : UInt64} {s s' : TurnStore}
    {d d' : DataDir} {f : Fault DataFile}
    (h : runCall (c.run now) s d (some f) = (.error writeError, s', d')) :
    ∃ w, s.entryOf now c = .ok w ∧ f.file ∈ turnFiles := by
  cases hw : s.entryOf now c with
  | error e =>
      rw [TurnCall.run_eq, hw] at h
      obtain ⟨rfl, -⟩ := by simpa using h
      exact absurd hw (entryOf_ne_writeError s now c)
  | ok w =>
      refine ⟨w, rfl, ?_⟩
      have hmem := (stop_of_error hw h).1
      unfold Entry.files at hmem
      split at hmem <;> revert hmem <;> cases f.file <;> simp [turnFiles]

/-- A call of the turn store that is rejected changes nothing. -/
theorem unchanged_of_run_error {c : TurnCall} {now : UInt64} {s s' : TurnStore}
    {d d' : DataDir} {e : StoreError}
    (h : runCall (c.run now) s d none = (.error e, s', d')) : s' = s ∧ d' = d := by
  rw [TurnCall.run_eq] at h
  cases hw : s.entryOf now c with
  | error e =>
      obtain ⟨-, rfl, rfl⟩ := by simpa [hw] using h
      exact ⟨rfl, rfl⟩
  | ok w => simp [hw, Entry.outcome, Entry.stop] at h

theorem DataDir.Fits.of_onto {w : Entry} {d : DataDir} {stop : Option (Fault DataFile)}
    (h : (w.onto d stop).Fits) : d.Fits := by
  intro file
  have hlen := h file
  simp only [Entry.onto, List.length_append] at hlen
  omega

/-- The files only grow. -/
theorem fits_of_run {c : TurnCall} {now : UInt64} {s s' : TurnStore} {d d' : DataDir}
    {fault : Option (Fault DataFile)} {r : Except StoreError TurnReply}
    (h : runCall (c.run now) s d fault = (r, s', d')) (hfits : d'.Fits) : d.Fits := by
  rw [TurnCall.run_eq] at h
  split at h
  · obtain ⟨-, -, rfl⟩ := by simpa using h
    exact hfits
  · simp only [Entry.outcome, Prod.mk.injEq] at h
    obtain ⟨-, -, rfl⟩ := h
    exact hfits.of_onto

section

variable {z : Zstd} {blake3 : Bytes → Hash} {B : BlobSystem → BlobEvent → Prop}
  {T : TurnSystem → TurnEvent → Prop}

/-- A put that returns is a step of the process, and the turn store does not see it. -/
theorem putPart {hash : Hash} {raw : Bytes} {entry : BlobIndexEntry} {s : Stores}
    {b : BlobStore} {d d' : DataDir} {fault : Option (Fault DataFile)}
    (h : runCall (putIfAbsent z hash raw) s.blobStore d fault = (.ok entry, b, d'))
    (hfits : d'.Fits) :
    PartStep z ⟨some s, d⟩
      (.put (if hash ∈ s.blobStore.index then .found hash raw else .stored hash raw))
      ⟨some { s with blobStore := b }, d'⟩ ∧
    (⟨some { s with blobStore := b }, d'⟩ : StoreSystem).turns =
      (⟨some s, d⟩ : StoreSystem).turns ∧
    (hash ∉ s.blobStore.index → ∀ f ∈ fault, f.file ∉ blobFiles) := by
  have hnone : runCall (putIfAbsent z hash raw) s.blobStore d none = (.ok entry, b, d') := by
    rw [putIfAbsent_run] at h ⊢
    split at h
    · exact h
    · split at h
      · simpa [putStop] using h
      · simp at h
  have hstep : BlobStep z ⟨some s.blobStore, d⟩
      (if hash ∈ s.blobStore.index then .found hash raw else .stored hash raw)
      ⟨some b, d'⟩ := by
    split
    · next hmem => exact .found hmem hnone
    · next hmem => exact .stored hmem hnone hfits
  refine ⟨.put (by split <;> simp) hstep, ?_, ?_⟩
  · have hdisk : d'.only turnFiles = d.only turnFiles :=
      DataDir.only_congr fun file hfile =>
        hstep.disk_of_notMem (by revert hfile; cases file <;> decide)
    simp [StoreSystem.turns, hdisk]
  · rintro hmem f rfl hfile
    rw [putIfAbsent_run, Finmap.lookup_eq_none.mpr hmem] at h
    have : putStop (some f) ≠ none := by
      rcases f with ⟨file, n⟩
      cases file <;> simp [blobFiles] at hfile <;> simp [putStop]
    simp [this] at h

/-- A put that is cut off is a step of the process. -/
theorem putCrash {hash : Hash} {raw : Bytes} {e : StoreError} {s : Stores} {b : BlobStore}
    {d d' : DataDir} {f : Fault DataFile}
    (h : runCall (putIfAbsent z hash raw) s.blobStore d (some f) = (.error e, b, d'))
    (hfits : d'.Fits) :
    PartStep z ⟨some s, d⟩ (.put (.crashed hash raw f)) ⟨none, d'⟩ ∧
      hash ∉ s.blobStore.index ∧ f.file ∈ blobFiles := by
  refine ⟨.put (by simp) (.crashed h hfits), (put_error h).1, ?_⟩
  rw [putIfAbsent_run] at h
  split at h
  · simp at h
  · split at h
    · simp at h
    · next hstop =>
        rcases f with ⟨file, n⟩
        cases file <;> simp [putStop] at hstop <;> simp [blobFiles]

/-- A context call, or the end of an append: it returns. -/
theorem callPart {tc : TurnCall} {now : UInt64} {reply : TurnReply} {s : Stores}
    {t : TurnStore} {d d' : DataDir}
    (h : runCall (tc.run now) s.turnStore d none = (.ok reply, t, d')) (hfits : d'.Fits) :
    ∃ w, s.turnStore.entryOf now tc = .ok w ∧
      PartStep z ⟨some s, d⟩ (.call (.acked tc now w)) ⟨some { s with turnStore := t }, d'⟩ := by
  obtain ⟨w, hw⟩ := entryOf_of_run_ok h
  exact ⟨w, hw, .call (t := some t) (by simp) (.acked hw h hfits)⟩

/-- A context call, or the end of an append: it is cut off. -/
theorem callCrash {tc : TurnCall} {now : UInt64} {s : Stores} {t : TurnStore}
    {d d' : DataDir} {f : Fault DataFile}
    (h : runCall (tc.run now) s.turnStore d (some f) = (.error writeError, t, d'))
    (hfits : d'.Fits) :
    ∃ w, s.turnStore.entryOf now tc = .ok w ∧ f.file ∈ turnFiles ∧
      PartStep z ⟨some s, d⟩ (.call (.crashed tc now f w)) ⟨none, d'⟩ := by
  obtain ⟨w, hw, hfile⟩ := entryOf_of_run_writeError h
  exact ⟨w, hw, hfile, .call (t := none) (by simp) (.crashed hw h hfits)⟩

/-- An append in terms of the call of the turn store. -/
theorem appendTurn_run_call (r : AppendRequest) (now : UInt64) (s : Stores) (d : DataDir)
    (fault : Option (Fault DataFile)) :
    runCall (StoreCall.run z blake3 now (.appendTurn r)) s d fault =
      match r.checked z blake3 with
      | .error e => (.error e, s, d)
      | .ok raw =>
        match runCall (putIfAbsent z r.contentHash raw) s.blobStore d fault with
        | (.error e, b, d') => (.error e, { s with blobStore := b }, d')
        | (.ok _, b, d') =>
            let o := runCall (TurnCall.run now (.appendTurn r.args)) s.turnStore d' fault
            (o.1.map TurnReply.toStore, { s with blobStore := b, turnStore := o.2.1 },
              o.2.2) := by
  have hmap : ∀ x : Except StoreError TurnRecord,
      x.map StoreReply.turn = (x.map TurnReply.turn).map TurnReply.toStore := by
    intro x
    cases x <;> rfl
  rw [StoreCall.run, runCall_map, Stores.appendTurn_run]
  cases r.checked z blake3 with
  | error e => rfl
  | ok raw =>
      simp only [TurnCall.run, runCall_map]
      rcases runCall (putIfAbsent z r.contentHash raw) s.blobStore d fault with
        ⟨e | entry, b, d'⟩
      · rfl
      · simp only [hmap]

/-- The put of an append whose checks pass. -/
theorem blob_appendTurn {r : AppendRequest} {raw : Bytes}
    (h : r.checked z blake3 = .ok raw) :
    StoreCall.blob z blake3 (.appendTurn r) = some (r.contentHash, raw) := by
  simp [StoreCall.blob, h, Except.toOption]

/-- The steps of an append that returns. -/
theorem parts_append_acked {r : AppendRequest} {now : UInt64} {reply : StoreReply}
    {s s' : Stores} {d d' : DataDir}
    (h : runCall (StoreCall.run z blake3 now (.appendTurn r)) s d none = (.ok reply, s', d'))
    (hfits : d'.Fits)
    (hb : ∀ b ∈ (StoreEvent.acked (.appendTurn r) now reply).put? z blake3 ⟨some s, d⟩,
      B (StoreSystem.blobs ⟨some s, d⟩) b)
    (ht : ∀ t ∈ (StoreEvent.acked (.appendTurn r) now reply).call? ⟨some s, d⟩,
      T (StoreSystem.turns ⟨some s, d⟩) t) :
    Run (Guarded (PartGuard B T) (PartStep z)) ⟨some s, d⟩
      ((StoreEvent.acked (.appendTurn r) now reply).parts z blake3 ⟨some s, d⟩)
      ⟨some s', d'⟩ := by
  rw [appendTurn_run_call] at h
  cases hr : r.checked z blake3 with
  | error e => simp [hr] at h
  | ok raw =>
  simp only [hr] at h
  obtain ⟨x, b, d₁, hput⟩ : ∃ x b d₁, runCall (putIfAbsent z r.contentHash raw) s.blobStore d
      none = (x, b, d₁) := ⟨_, _, _, rfl⟩
  rw [hput] at h
  cases x with
  | error e => simp at h
  | ok entry =>
  obtain ⟨y, t, d₂, hcall⟩ : ∃ y t d₂, runCall (TurnCall.run now (.appendTurn r.args))
      s.turnStore d₁ none = (y, t, d₂) := ⟨_, _, _, rfl⟩
  simp only [hcall, Prod.mk.injEq] at h
  obtain ⟨hy, rfl, rfl⟩ := h
  cases y with
  | error e => simp [Except.map] at hy
  | ok y =>
  obtain ⟨hputStep, hturns, -⟩ := putPart hput (fits_of_run hcall hfits)
  obtain ⟨w, hw, hcallStep⟩ := callPart (s := { s with blobStore := b }) hcall hfits
  simp only [StoreEvent.put?, StoreEvent.call?, StoreEvent.parts, StoreEvent.attach?,
    blob_appendTurn hr, StoreCall.turnCall, bind, Option.bind, hw, Except.toOption] at hb ht ⊢
  exact (Run.single ⟨hb _ rfl, hputStep⟩).next
    ⟨(congrArg (T · _) hturns).mpr (ht _ rfl), hcallStep⟩

/-- The steps of an append that is rejected. -/
theorem parts_append_rejected {r : AppendRequest} {now : UInt64} {e : StoreError}
    {s s' : Stores} {d d' : DataDir}
    (h : runCall (StoreCall.run z blake3 now (.appendTurn r)) s d none = (.error e, s', d'))
    (hfits : d'.Fits)
    (hb : ∀ b ∈ (StoreEvent.rejected (.appendTurn r) now e).put? z blake3 ⟨some s, d⟩,
      B (StoreSystem.blobs ⟨some s, d⟩) b) :
    Run (Guarded (PartGuard B T) (PartStep z)) ⟨some s, d⟩
      ((StoreEvent.rejected (.appendTurn r) now e).parts z blake3 ⟨some s, d⟩)
      ⟨some s', d'⟩ := by
  rw [appendTurn_run_call] at h
  cases hr : r.checked z blake3 with
  | error e' =>
      obtain ⟨rfl, rfl, rfl⟩ := by simpa [hr] using h
      simpa [StoreEvent.parts, StoreEvent.put?, StoreEvent.call?, StoreEvent.attach?,
        StoreCall.blob, hr, Except.toOption, bind] using Run.start
  | ok raw =>
  simp only [hr] at h
  obtain ⟨x, b, d₁, hput⟩ : ∃ x b d₁, runCall (putIfAbsent z r.contentHash raw) s.blobStore d
      none = (x, b, d₁) := ⟨_, _, _, rfl⟩
  rw [hput] at h
  cases x with
  | error e' =>
      -- Without a fault a put returns.
      rw [putIfAbsent_run] at hput
      split at hput <;> simp [putStop] at hput
  | ok entry =>
  obtain ⟨y, t, d₂, hcall⟩ : ∃ y t d₂, runCall (TurnCall.run now (.appendTurn r.args))
      s.turnStore d₁ none = (y, t, d₂) := ⟨_, _, _, rfl⟩
  simp only [hcall, Prod.mk.injEq] at h
  obtain ⟨hy, rfl, rfl⟩ := h
  cases y with
  | ok y => simp [Except.map] at hy
  | error e' =>
  obtain ⟨rfl, rfl⟩ := unchanged_of_run_error hcall
  obtain ⟨hputStep, -, -⟩ := putPart hput hfits
  simp only [StoreEvent.put?, StoreEvent.call?, StoreEvent.parts, StoreEvent.attach?,
    blob_appendTurn hr, bind, Option.bind] at hb ⊢
  exact Run.single ⟨hb _ rfl, hputStep⟩

/-- The steps of an append that is cut off, in the put or in the append. -/
theorem parts_append_crashed {r : AppendRequest} {now : UInt64} {f : Fault DataFile}
    {s s' : Stores} {d d' : DataDir}
    (h : runCall (StoreCall.run z blake3 now (.appendTurn r)) s d (some f) =
      (.error writeError, s', d')) (hfits : d'.Fits)
    (hb : ∀ b ∈ (StoreEvent.crashed (.appendTurn r) now f).put? z blake3 ⟨some s, d⟩,
      B (StoreSystem.blobs ⟨some s, d⟩) b)
    (ht : ∀ t ∈ (StoreEvent.crashed (.appendTurn r) now f).call? ⟨some s, d⟩,
      T (StoreSystem.turns ⟨some s, d⟩) t) :
    Run (Guarded (PartGuard B T) (PartStep z)) ⟨some s, d⟩
      ((StoreEvent.crashed (.appendTurn r) now f).parts z blake3 ⟨some s, d⟩)
      ⟨none, d'⟩ := by
  rw [appendTurn_run_call] at h
  cases hr : r.checked z blake3 with
  | error e' =>
      obtain ⟨rfl, -⟩ := by simpa [hr] using h
      exact absurd hr (r.checked_ne_writeError z blake3)
  | ok raw =>
  simp only [hr] at h
  obtain ⟨x, b, d₁, hput⟩ : ∃ x b d₁, runCall (putIfAbsent z r.contentHash raw) s.blobStore d
      (some f) = (x, b, d₁) := ⟨_, _, _, rfl⟩
  rw [hput] at h
  cases x with
  | error e' =>
      obtain ⟨rfl, rfl, rfl⟩ := by simpa using h
      obtain ⟨hputStep, hmem, hfile⟩ := putCrash hput hfits
      simp only [StoreEvent.put?, StoreEvent.call?, StoreEvent.parts, StoreEvent.attach?,
        blob_appendTurn hr, bind, Option.bind, hmem, hfile, notMem_turnFiles hfile, if_false,
        if_true] at hb ⊢
      exact Run.single ⟨hb _ rfl, hputStep⟩
  | ok entry =>
  obtain ⟨y, t, d₂, hcall⟩ : ∃ y t d₂, runCall (TurnCall.run now (.appendTurn r.args))
      s.turnStore d₁ (some f) = (y, t, d₂) := ⟨_, _, _, rfl⟩
  simp only [hcall, Prod.mk.injEq] at h
  obtain ⟨hy, rfl, rfl⟩ := h
  cases y with
  | ok y => simp [Except.map] at hy
  | error e' =>
  obtain rfl : e' = writeError := by simpa [Except.map] using hy
  obtain ⟨hputStep, hturns, -⟩ := putPart hput (fits_of_run hcall hfits)
  obtain ⟨w, hw, hfile, hcallStep⟩ := callCrash (s := { s with blobStore := b }) hcall hfits
  have hblob : f.file ∉ blobFiles := fun h => notMem_turnFiles h hfile
  simp only [StoreEvent.put?, StoreEvent.call?, StoreEvent.parts, StoreEvent.attach?,
    blob_appendTurn hr, StoreCall.turnCall, bind, Option.bind, hw, Except.toOption, hfile,
    hblob, if_true, if_false] at hb ht ⊢
  exact (Run.single ⟨hb _ rfl, hputStep⟩).next
    ⟨(congrArg (T · _) hturns).mpr (ht _ rfl), hcallStep⟩

/-- A request to put a blob is a put, if the hash is right. -/
theorem putBlob_run (hash : Hash) (data : Bytes) (now : UInt64) (s : Stores) (d : DataDir)
    (fault : Option (Fault DataFile)) :
    runCall (StoreCall.run z blake3 now (.putBlob hash data)) s d fault =
      if blake3 data = hash then
        let o := runCall (putIfAbsent z hash data) s.blobStore d fault
        (o.1.map fun _ => .blob hash (!s.blobStore.contains hash),
          { s with blobStore := o.2.1 }, o.2.2)
      else (.error (.invalidInput "blob hash mismatch"), s, d) := by
  by_cases hhash : blake3 data = hash
  · have hrun : StoreCall.run z blake3 now (.putBlob hash data) = (do
        let s ← getMem
        (fun _ => StoreReply.blob hash (!s.blobStore.contains hash)) <$>
          onBlobs (putIfAbsent z hash data)) := by
      simp [StoreCall.run, Stores.putBlob, hhash]
    rw [hrun, runCall_bind, if_pos hhash]
    simp only [getMem, runCall_map, onBlobs, runCall_zoom]
  · simp [StoreCall.run, Stores.putBlob, hhash, runCall, liftExcept]

/-- A context call of the store is one of the turn store. -/
structure IsContextCall (c : StoreCall) (tc : TurnCall) : Prop where
  turnCall : c.turnCall = some tc
  blob : ∀ z blake3, c.blob z blake3 = none
  run : ∀ z blake3 now, c.run z blake3 now = TurnReply.toStore <$> onTurns (tc.run now)
  attach_acked : ∀ now reply, (StoreEvent.acked c now reply).attach? = none
  attach_crashed : ∀ now f, (StoreEvent.crashed c now f).attach? = none

theorem context_map (x : StoreM TurnStore ContextHead) :
    (StoreReply.context <$> onTurns x : StoreM Stores StoreReply) =
      TurnReply.toStore <$> onTurns (TurnReply.context <$> x) := by
  funext w
  simp only [Functor.map, EStateM.map, onTurns, zoom]
  cases x ⟨w.mem.turnStore, w.disk, w.fault⟩ <;> rfl

theorem isContextCall_create (base : UInt64) :
    IsContextCall (.createContext base) (.createContext base) :=
  ⟨rfl, fun _ _ => rfl, fun _ _ _ => context_map _, fun _ _ => rfl, fun _ _ => rfl⟩

theorem isContextCall_fork (base : UInt64) :
    IsContextCall (.forkContext base) (.forkContext base) :=
  ⟨rfl, fun _ _ => rfl, fun _ _ _ => context_map _, fun _ _ => rfl, fun _ _ => rfl⟩

/-- A context call in terms of the call of the turn store. -/
theorem IsContextCall.run_call {c : StoreCall} {tc : TurnCall} (hc : IsContextCall c tc)
    (now : UInt64) (s : Stores) (d : DataDir) (fault : Option (Fault DataFile)) :
    runCall (c.run z blake3 now) s d fault =
      let o := runCall (tc.run now) s.turnStore d fault
      (o.1.map TurnReply.toStore, { s with turnStore := o.2.1 }, o.2.2) := by
  rw [hc.run, runCall_map, onTurns, runCall_zoom]

/-- The step of a context call that returns. -/
theorem IsContextCall.parts_acked {c : StoreCall} {tc : TurnCall} (hc : IsContextCall c tc)
    {now : UInt64} {reply : StoreReply} {s s' : Stores} {d d' : DataDir}
    (h : runCall (c.run z blake3 now) s d none = (.ok reply, s', d')) (hfits : d'.Fits)
    (ht : ∀ t ∈ (StoreEvent.acked c now reply).call? ⟨some s, d⟩,
      T (StoreSystem.turns ⟨some s, d⟩) t) :
    Run (Guarded (PartGuard B T) (PartStep z)) ⟨some s, d⟩
      ((StoreEvent.acked c now reply).parts z blake3 ⟨some s, d⟩) ⟨some s', d'⟩ := by
  obtain ⟨y, t, d₂, hcall⟩ : ∃ y t d₂, runCall (tc.run now) s.turnStore d none = (y, t, d₂) :=
    ⟨_, _, _, rfl⟩
  simp only [hc.run_call, hcall, Prod.mk.injEq] at h
  obtain ⟨hy, rfl, rfl⟩ := h
  cases y with
  | error e => simp [Except.map] at hy
  | ok y =>
      obtain ⟨w, hw, hstep⟩ := callPart hcall hfits
      simp only [StoreEvent.put?, StoreEvent.call?, StoreEvent.parts, hc.attach_acked, hc.blob,
        hc.turnCall, bind, Option.bind, hw, Except.toOption] at ht ⊢
      exact Run.single ⟨ht _ rfl, hstep⟩

/-- A context call that is rejected takes no step. -/
theorem IsContextCall.parts_rejected {c : StoreCall} {tc : TurnCall}
    (hc : IsContextCall c tc) {now : UInt64} {e : StoreError} {s s' : Stores} {d d' : DataDir}
    (h : runCall (c.run z blake3 now) s d none = (.error e, s', d')) :
    Run (Guarded (PartGuard B T) (PartStep z)) ⟨some s, d⟩
      ((StoreEvent.rejected c now e).parts z blake3 ⟨some s, d⟩) ⟨some s', d'⟩ := by
  obtain ⟨y, t, d₂, hcall⟩ : ∃ y t d₂, runCall (tc.run now) s.turnStore d none = (y, t, d₂) :=
    ⟨_, _, _, rfl⟩
  simp only [hc.run_call, hcall, Prod.mk.injEq] at h
  obtain ⟨hy, rfl, rfl⟩ := h
  cases y with
  | ok y => simp [Except.map] at hy
  | error e' =>
      obtain ⟨rfl, rfl⟩ := unchanged_of_run_error hcall
      simpa [StoreEvent.parts, StoreEvent.put?, StoreEvent.call?, StoreEvent.attach?, hc.blob]
        using Run.start

/-- The step of a context call that is cut off. -/
theorem IsContextCall.parts_crashed {c : StoreCall} {tc : TurnCall}
    (hc : IsContextCall c tc) {now : UInt64} {f : Fault DataFile} {s s' : Stores}
    {d d' : DataDir}
    (h : runCall (c.run z blake3 now) s d (some f) = (.error writeError, s', d'))
    (hfits : d'.Fits)
    (ht : ∀ t ∈ (StoreEvent.crashed c now f).call? ⟨some s, d⟩,
      T (StoreSystem.turns ⟨some s, d⟩) t) :
    Run (Guarded (PartGuard B T) (PartStep z)) ⟨some s, d⟩
      ((StoreEvent.crashed c now f).parts z blake3 ⟨some s, d⟩) ⟨none, d'⟩ := by
  obtain ⟨y, t, d₂, hcall⟩ :
      ∃ y t d₂, runCall (tc.run now) s.turnStore d (some f) = (y, t, d₂) := ⟨_, _, _, rfl⟩
  simp only [hc.run_call, hcall, Prod.mk.injEq] at h
  obtain ⟨hy, rfl, rfl⟩ := h
  cases y with
  | ok y => simp [Except.map] at hy
  | error e' =>
      obtain rfl : e' = writeError := by simpa [Except.map] using hy
      obtain ⟨w, hw, hfile, hstep⟩ := callCrash hcall hfits
      simp only [StoreEvent.put?, StoreEvent.call?, StoreEvent.parts, hc.attach_crashed,
        hc.blob, hc.turnCall, bind, Option.bind, hw, Except.toOption, hfile, if_true] at ht ⊢
      exact Run.single ⟨ht _ rfl, hstep⟩

/-- The steps of a request to put a blob. -/
theorem parts_putBlob {hash : Hash} {data : Bytes} {now : UInt64} {s s' : Stores}
    {d d' : DataDir} {fault : Option (Fault DataFile)} {r : Except StoreError StoreReply}
    (h : runCall (StoreCall.run z blake3 now (.putBlob hash data)) s d fault = (r, s', d'))
    (hfits : d'.Fits) :
    (blake3 data ≠ hash ∧ r = .error (.invalidInput "blob hash mismatch") ∧ s' = s ∧ d' = d) ∨
    (blake3 data = hash ∧ (∃ reply, r = .ok reply) ∧
      PartStep z ⟨some s, d⟩
        (.put (if hash ∈ s.blobStore.index then .found hash data else .stored hash data))
        ⟨some s', d'⟩) ∨
    (blake3 data = hash ∧ ∃ f, fault = some f ∧ r = .error writeError ∧
      hash ∉ s.blobStore.index ∧ f.file ∈ blobFiles ∧
      PartStep z ⟨some s, d⟩ (.put (.crashed hash data f)) ⟨none, d'⟩) := by
  rw [putBlob_run] at h
  split at h
  next hhash =>
    obtain ⟨x, b, d₁, hput⟩ : ∃ x b d₁, runCall (putIfAbsent z hash data) s.blobStore d fault =
        (x, b, d₁) := ⟨_, _, _, rfl⟩
    simp only [hput, Prod.mk.injEq] at h
    obtain ⟨rfl, rfl, rfl⟩ := h
    cases x with
    | ok entry => exact Or.inr (Or.inl ⟨hhash, ⟨_, rfl⟩, (putPart hput hfits).1⟩)
    | error e =>
        have he : e = writeError ∧ fault ≠ none := by
          rw [putIfAbsent_run] at hput
          split at hput
          · simp at hput
          · split at hput
            · simp at hput
            · next hstop =>
                refine ⟨(Except.error.inj (Prod.mk.inj hput).1).symm, ?_⟩
                rintro rfl
                exact hstop rfl
        obtain ⟨rfl, hne⟩ := he
        obtain ⟨f, rfl⟩ := Option.ne_none_iff_exists'.mp hne
        obtain ⟨hstep, hmem, hfile⟩ := putCrash hput hfits
        exact Or.inr (Or.inr ⟨hhash, f, rfl, rfl, hmem, hfile, hstep⟩)
  next hhash =>
    obtain ⟨rfl, rfl, rfl⟩ := by simpa using h
    exact Or.inl ⟨hhash, rfl, rfl, rfl⟩

/-- **The parts of a step.** A step of the store is made of steps of its parts, under the
conditions that its put and its call of the turn store meet in the state before. -/
theorem StoreStep.parts {m m' : StoreSystem} {e : StoreEvent}
    (h : StoreStep z blake3 m e m') (hb : ∀ b ∈ e.put? z blake3 m, B m.blobs b)
    (ht : ∀ t ∈ e.call? m, T m.turns t) :
    Run (Guarded (PartGuard B T) (PartStep z)) m (e.parts z blake3 m) m' := by
  cases h with
  | opened ho => exact Run.single ⟨trivial, .opened ho⟩
  | @acked c now reply s s' d d' hrun hfits =>
      cases c with
      | createContext base => exact (isContextCall_create base).parts_acked hrun hfits ht
      | forkContext base => exact (isContextCall_fork base).parts_acked hrun hfits ht
      | appendTurn r => exact parts_append_acked hrun hfits hb ht
      | putBlob hash data =>
          rcases parts_putBlob hrun hfits with ⟨-, h, -⟩ | ⟨hhash, -, hstep⟩ | ⟨-, f, h, -⟩
          · simp at h
          · simp only [StoreEvent.put?, StoreEvent.call?, StoreEvent.parts, StoreEvent.attach?,
              StoreCall.blob, hhash, if_true, StoreCall.turnCall, bind, Option.bind] at hb ⊢
            exact Run.single ⟨hb _ rfl, hstep⟩
          · simp at h
      | attachFs turnId fsRootHash =>
          rw [StoreCall.run, runCall_map] at hrun
          obtain ⟨x, s₁, d₁, hatt⟩ : ∃ x s₁ d₁, runCall (Stores.attachFs turnId fsRootHash)
              s d none = (x, s₁, d₁) := ⟨_, _, _, rfl⟩
          rw [hatt] at hrun
          obtain ⟨hx, rfl, rfl⟩ := by simpa using hrun
          cases x with
          | error e => simp [Except.map] at hx
          | ok u => exact Run.single ⟨trivial, .attached hatt hfits⟩
  | @rejected c now e s s' d d' hrun hfits =>
      cases c with
      | createContext base => exact (isContextCall_create base).parts_rejected hrun
      | forkContext base => exact (isContextCall_fork base).parts_rejected hrun
      | appendTurn r => exact parts_append_rejected hrun hfits hb
      | putBlob hash data =>
          rcases parts_putBlob hrun hfits with ⟨hhash, -, rfl, rfl⟩ | ⟨-, ⟨_, h⟩, -⟩ |
            ⟨-, f, h, -⟩
          · simpa [StoreEvent.parts, StoreEvent.put?, StoreEvent.call?, StoreEvent.attach?,
              StoreCall.blob, hhash] using Run.start
          · simp at h
          · simp at h
      | attachFs turnId fsRootHash =>
          rw [StoreCall.run, runCall_map, Stores.attachFs_run] at hrun
          have hsame : s' = s ∧ d' = d := by
            split at hrun
            · simp only [Prod.mk.injEq] at hrun
              exact ⟨hrun.2.1.symm, hrun.2.2.symm⟩
            · split at hrun
              · simp [rootStop, Except.map] at hrun
              · simp only [Prod.mk.injEq] at hrun
                exact ⟨hrun.2.1.symm, hrun.2.2.symm⟩
          obtain ⟨rfl, rfl⟩ := hsame
          simpa [StoreEvent.parts, StoreEvent.put?, StoreEvent.call?, StoreEvent.attach?,
            StoreCall.blob] using Run.start
  | @crashed c now f s s' d d' hrun hfits =>
      cases c with
      | createContext base => exact (isContextCall_create base).parts_crashed hrun hfits ht
      | forkContext base => exact (isContextCall_fork base).parts_crashed hrun hfits ht
      | appendTurn r => exact parts_append_crashed hrun hfits hb ht
      | putBlob hash data =>
          rcases parts_putBlob hrun hfits with ⟨-, h, -⟩ | ⟨-, ⟨_, h⟩, -⟩ |
            ⟨hhash, f', hf, -, hmem, hfile, hstep⟩
          · simp [writeError] at h
          · simp at h
          · obtain rfl := Option.some.inj hf
            simp only [StoreEvent.put?, StoreEvent.call?, StoreEvent.parts, StoreEvent.attach?,
              StoreCall.blob, hhash, if_true, bind, Option.bind, hmem, hfile,
              notMem_turnFiles hfile, if_false] at hb ⊢
            exact Run.single ⟨hb _ rfl, hstep⟩
      | attachFs turnId fsRootHash =>
          rw [StoreCall.run, runCall_map] at hrun
          obtain ⟨x, s₁, d₁, hatt⟩ : ∃ x s₁ d₁, runCall (Stores.attachFs turnId fsRootHash)
              s d (some f) = (x, s₁, d₁) := ⟨_, _, _, rfl⟩
          rw [hatt] at hrun
          obtain ⟨hx, rfl, rfl⟩ := by simpa using hrun
          cases x with
          | ok u => simp [Except.map] at hx
          | error e =>
              obtain rfl : e = writeError := by simpa [Except.map] using hx
              have hcall : (StoreEvent.crashed (.attachFs turnId fsRootHash) now f).call?
                  ⟨some s, d⟩ = none := by
                simp [StoreEvent.call?, StoreCall.turnCall]
              simp only [StoreEvent.parts, hcall, StoreEvent.put?, StoreEvent.attach?,
                StoreCall.blob, bind, Option.bind]
              exact Run.single ⟨trivial, .attachCrashed hatt hfits⟩

/-! ### The parts of a run -/

theorem turnEvents_append (ps qs : List PartEvent) :
    turnEvents (ps ++ qs) = turnEvents ps ++ turnEvents qs :=
  List.filterMap_append

theorem blobEvents_append (ps qs : List PartEvent) :
    blobEvents (ps ++ qs) = blobEvents ps ++ blobEvents qs :=
  List.filterMap_append

/-- Every turn that was written or begun has had its payload put. -/
def PutFirst (ps : List PartEvent) : Prop :=
  ∀ t ∈ turnEvents ps, ∀ p ∈ t.write, ∀ r ∈ p.1.turn,
    ∃ raw, .found r.1.payloadHash raw ∈ blobEvents ps ∨
      .stored r.1.payloadHash raw ∈ blobEvents ps

/-- The events of the turn store among the parts. -/
theorem turnEvents_parts {m : StoreSystem} {e : StoreEvent} (he : e ≠ .opened) :
    turnEvents (e.parts z blake3 m) = (e.call? m).toList := by
  have hattach : turnEvents e.attach?.toList = [] := by
    unfold StoreEvent.attach?
    split <;> rfl
  have hput : turnEvents ((e.put? z blake3 m).map PartEvent.put).toList = [] := by
    cases e.put? z blake3 m <;> rfl
  have hcall : turnEvents ((e.call? m).map PartEvent.call).toList = (e.call? m).toList := by
    cases e.call? m <;> rfl
  have hparts : e.parts z blake3 m = ((e.put? z blake3 m).map PartEvent.put).toList ++
      (((e.call? m).map PartEvent.call).toList ++ e.attach?.toList) := by
    cases e with
    | opened => exact absurd rfl he
    | _ => rfl
  rw [hparts, turnEvents_append, turnEvents_append, hput, hcall, hattach]
  simp

/-- The events of the blob store among the parts. -/
theorem blobEvents_parts {m : StoreSystem} {e : StoreEvent} (he : e ≠ .opened) :
    blobEvents (e.parts z blake3 m) = (e.put? z blake3 m).toList := by
  have hattach : blobEvents e.attach?.toList = [] := by
    unfold StoreEvent.attach?
    split <;> rfl
  have hput : blobEvents ((e.put? z blake3 m).map PartEvent.put).toList =
      (e.put? z blake3 m).toList := by
    cases e.put? z blake3 m <;> rfl
  have hcall : blobEvents ((e.call? m).map PartEvent.call).toList = [] := by
    cases e.call? m <;> rfl
  have hparts : e.parts z blake3 m = ((e.put? z blake3 m).map PartEvent.put).toList ++
      (((e.call? m).map PartEvent.call).toList ++ e.attach?.toList) := by
    cases e with
    | opened => exact absurd rfl he
    | _ => rfl
  rw [hparts, blobEvents_append, blobEvents_append, hput, hcall, hattach]
  simp

/-- An append that gets to its writes has passed its checks. -/
theorem checked_of_run {r : AppendRequest} {now : UInt64} {s s' : Stores} {d d' : DataDir}
    {fault : Option (Fault DataFile)} {x : Except StoreError StoreReply}
    (h : runCall (StoreCall.run z blake3 now (.appendTurn r)) s d fault = (x, s', d'))
    (hx : (∃ reply, x = .ok reply) ∨ x = .error writeError) :
    ∃ raw, r.checked z blake3 = .ok raw := by
  rw [appendTurn_run_call] at h
  cases hr : r.checked z blake3 with
  | ok raw => exact ⟨raw, rfl⟩
  | error e =>
      obtain ⟨rfl, -⟩ := by simpa [hr] using h
      rcases hx with ⟨reply, hx⟩ | hx
      · simp at hx
      · obtain rfl := by simpa using hx
        exact absurd hr (r.checked_ne_writeError z blake3)

/-- The turn of a call event has the payload that the call has put. -/
theorem StoreStep.put_of_call {m m' : StoreSystem} {e : StoreEvent}
    (h : StoreStep z blake3 m e m') {t : TurnEvent} (ht : t ∈ e.call? m)
    {w : Entry} {stop : Option (Fault DataFile)} (hw : t.write = some (w, stop))
    {r : TurnRecord × TurnMeta} (hr : w.turn = some r) :
    ∃ raw, e.put? z blake3 m = some (.found r.1.payloadHash raw) ∨
      e.put? z blake3 m = some (.stored r.1.payloadHash raw) := by
  -- Only an append has a turn.
  have hturn : ∀ {s : TurnStore} {now : UInt64} {c : StoreCall} {tc : TurnCall},
      c.turnCall = some tc → s.entryOf now tc = .ok w →
        ∃ a, c = .appendTurn a ∧ r.1.payloadHash = a.contentHash := by
    intro s now c tc hc hentry
    cases c with
    | createContext base | forkContext base =>
        obtain rfl := Option.some.inj hc
        obtain ⟨b, -, rfl⟩ := entryOf_create hentry
        simp at hr
    | appendTurn a =>
        obtain rfl := Option.some.inj hc
        obtain ⟨p, -, rfl⟩ := entryOf_append hentry
        obtain rfl := Option.some.inj hr
        exact ⟨a, rfl, rfl⟩
    | putBlob | attachFs => simp [StoreCall.turnCall] at hc
  cases h with
  | opened | rejected => simp [StoreEvent.call?] at ht
  | @acked c now reply s s' d d' hrun hfits =>
      simp only [StoreEvent.call?, bind, Option.mem_def, Option.bind_eq_some_iff,
        Option.some.injEq] at ht
      obtain ⟨s, rfl, tc, htc, w', hw', rfl⟩ := ht
      obtain ⟨rfl, -⟩ := by simpa [TurnEvent.write] using hw
      cases hentry : s.turnStore.entryOf now tc with
      | error e => simp [hentry, Except.toOption] at hw'
      | ok w'' =>
          obtain rfl : w'' = w' := by simpa [hentry, Except.toOption] using hw'
          obtain ⟨a, rfl, hhash⟩ := hturn htc hentry
          obtain ⟨raw, hraw⟩ := checked_of_run hrun (Or.inl ⟨_, rfl⟩)
          refine ⟨raw, ?_⟩
          simp only [StoreEvent.put?, blob_appendTurn hraw, bind, Option.bind, hhash]
          split
          · exact Or.inl rfl
          · exact Or.inr rfl
  | @crashed c now f s s' d d' hrun hfits =>
      simp only [StoreEvent.call?, Option.mem_def] at ht
      split at ht
      case isFalse => simp at ht
      next hfile =>
      simp only [bind, Option.bind_eq_some_iff, Option.some.injEq] at ht
      obtain ⟨s, rfl, tc, htc, w', hw', rfl⟩ := ht
      obtain ⟨rfl, -⟩ := by simpa [TurnEvent.write] using hw
      cases hentry : s.turnStore.entryOf now tc with
      | error e => simp [hentry, Except.toOption] at hw'
      | ok w'' =>
          obtain rfl : w'' = w' := by simpa [hentry, Except.toOption] using hw'
          obtain ⟨a, rfl, hhash⟩ := hturn htc hentry
          obtain ⟨raw, hraw⟩ := checked_of_run hrun (Or.inr rfl)
          refine ⟨raw, ?_⟩
          have hblob : f.file ∉ blobFiles := fun h => notMem_turnFiles h hfile
          simp only [StoreEvent.put?, blob_appendTurn hraw, bind, Option.bind, hhash, hblob,
            if_false]
          split
          · exact Or.inl rfl
          · exact Or.inr rfl

/-- **The parts of a run.** A run of the store is a run of its parts, in which every turn
comes after its payload. -/
theorem partsRun {C : StoreSystem → StoreEvent → Prop}
    (hb : ∀ m e, C m e → ∀ b ∈ e.put? z blake3 m, B m.blobs b)
    (ht : ∀ m e, C m e → ∀ t ∈ e.call? m, T m.turns t) {es : List StoreEvent}
    {m : StoreSystem} (h : Run (Guarded C (StoreStep z blake3)) StoreSystem.initial es m) :
    ∃ ps, Run (Guarded (PartGuard B T) (PartStep z)) StoreSystem.initial ps m ∧
      PutFirst ps := by
  induction h with
  | start => exact ⟨[], Run.start, by simp [PutFirst, turnEvents]⟩
  | @next es m m' e _ hs ih =>
      obtain ⟨hC, hs⟩ := hs
      obtain ⟨ps, hps, hput⟩ := ih
      refine ⟨ps ++ e.parts z blake3 m, hps.append (hs.parts (hb m e hC) (ht m e hC)), ?_⟩
      intro t hmem p hp r hr
      rw [turnEvents_append] at hmem
      rw [blobEvents_append]
      rcases List.mem_append.mp hmem with hmem | hmem
      · obtain ⟨raw, hraw⟩ := hput t hmem p hp r hr
        exact ⟨raw, hraw.imp (List.mem_append_left _) (List.mem_append_left _)⟩
      · by_cases he : e = .opened
        · subst he
          obtain rfl : t = .opened := by simpa [StoreEvent.parts, turnEvents,
            PartEvent.turn?] using hmem
          simp [TurnEvent.write] at hp
        · rw [turnEvents_parts he, Option.mem_toList] at hmem
          obtain ⟨raw, hraw⟩ := hs.put_of_call hmem hp hr
          rw [blobEvents_parts he]
          refine ⟨raw, hraw.imp ?_ ?_⟩ <;>
            · intro h
              exact List.mem_append_right _ (by simp [h])

end

end Cxdb
