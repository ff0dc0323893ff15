import Cxdb.StoreSplit

/-!
# The Store against Faults

The store as a system whose calls may meet a fault: a write that stops fails the call, and
the process goes on serving or dies there. A call is a put and a call of the turn store,
each of them if it comes to it, so a step of the system is at most one step of the blob
store and one of the turn store, in files of their own.

## Main results

* `StoreCall.run_parts`: the parts of a call against a fault.
* `StoreSystem.act_cases`: what a step can do.
-/

open ByteFormat FaultyDisk RecordLog Transition

namespace Cxdb

/-! ### Steps -/

/-- What makes the store step: the directory is opened, or a call meets a fault or none, and
the process dies in a write that stops or goes on. -/
inductive StoreAct where
  | opening
  | call (c : StoreCall) (now : UInt64) (fault : Option (Fault DataFile)) (dies : Bool)

/-- The call ended in a write that stopped. -/
def stopped {α : Type} : Except StoreError α → Bool
  | .ok _ => false
  | .error e => decide (e = writeError)

/-- The step of the store, if there is one. -/
def StoreSystem.act (z : Zstd) (blake3 : Bytes → Hash) (m : StoreSystem) :
    StoreAct → Option StoreSystem
  | .opening =>
      match Stores.openDir m.disk with
      | .error _ => none
      | .ok (s, d') => some ⟨some s, d'⟩
  | .call c now fault dies =>
      m.proc.bind fun s =>
        let (x, s', d') := runCall (c.run z blake3 now) s m.disk fault
        if DataDir.Fits d' then some ⟨if dies && stopped x then none else some s', d'⟩
        else none

/-! ### The parts of a call -/

/-- What a put does against a fault. -/
def BlobStore.putEvent (s : BlobStore) (blob : Hash × Bytes)
    (fault : Option (Fault DataFile)) : BlobEvent :=
  if blob.1 ∈ s.index then .found blob.1 blob.2
  else
    match putStop fault with
    | none => .stored blob.1 blob.2
    | some f => .failed blob.1 blob.2 f

/-- The put that a call makes. -/
def StoreCall.putEvent? (z : Zstd) (blake3 : Bytes → Hash) (c : StoreCall) (s : Stores)
    (fault : Option (Fault DataFile)) : Option BlobEvent :=
  (c.blob z blake3).map fun blob => s.blobStore.putEvent blob fault

/-- The call comes to the turn store: what it puts before is checked, and there or stored. -/
def StoreCall.Proceeds (z : Zstd) (blake3 : Bytes → Hash) (c : StoreCall) (s : Stores)
    (fault : Option (Fault DataFile)) : Prop :=
  match c with
  | .appendTurn r =>
      (r.checked z blake3).toOption.isSome = true ∧
        (r.contentHash ∈ s.blobStore.index ∨ putStop fault = none)
  | _ => True

instance (z : Zstd) (blake3 : Bytes → Hash) (c : StoreCall) (s : Stores)
    (fault : Option (Fault DataFile)) : Decidable (c.Proceeds z blake3 s fault) :=
  match c with
  | .appendTurn _ => inferInstanceAs (Decidable (_ ∧ _))
  | .createContext _ | .forkContext _ | .putBlob _ _ | .attachFs _ _ =>
      inferInstanceAs (Decidable True)

/-- What an entry does against a fault. -/
def Entry.event (w : Entry) (c : TurnCall) (now : UInt64) (fault : Option (Fault DataFile)) :
    TurnEvent :=
  match w.stop fault with
  | none => .acked c now w
  | some f => .failed c now f w

/-- The call of the turn store that a call makes, if it finds what it names there. -/
def StoreCall.turnEvent? (z : Zstd) (blake3 : Bytes → Hash) (c : StoreCall) (s : Stores)
    (now : UInt64) (fault : Option (Fault DataFile)) : Option TurnEvent :=
  if c.Proceeds z blake3 s fault then do
    let call ← c.turnCall
    let w ← (s.turnStore.entryOf now call).toOption
    return w.event call now fault
  else none

/-- A put against a fault is a step of the blob store. -/
theorem BlobStep.of_put {z : Zstd} (blob : Hash × Bytes) {s s' : BlobStore} {d d' : DataDir}
    {fault : Option (Fault DataFile)} {x : Except StoreError BlobIndexEntry}
    (h : runCall (putIfAbsent z blob.1 blob.2) s d fault = (x, s', d')) (hfits : d'.Fits) :
    BlobStep z ⟨some s, d⟩ (s.putEvent blob fault) ⟨some s', d'⟩ := by
  have hrun := fun fault => putIfAbsent_run z blob.1 blob.2 s d fault
  rw [BlobStore.putEvent]
  cases hl : s.index.lookup blob.1 with
  | some entry =>
      rw [if_pos (Finmap.mem_iff.mpr ⟨entry, hl⟩)]
      simp only [hl] at hrun
      rw [hrun] at h
      obtain ⟨-, rfl, rfl⟩ := by simpa using h
      exact .found (Finmap.mem_iff.mpr ⟨entry, hl⟩) (hrun none)
  | none =>
      have hmem : blob.1 ∉ s.index := Finmap.lookup_eq_none.mp hl
      rw [if_neg hmem]
      simp only [hl] at hrun
      rw [hrun] at h
      cases hstop : putStop fault with
      | none =>
          rw [hstop, if_pos rfl] at h
          obtain ⟨-, rfl, rfl⟩ := by simpa using h
          exact .stored hmem (by rw [hrun none]; rfl) hfits
      | some f =>
          have hf : putStop (some f) = some f := by
            rcases fault with _ | g
            · cases hstop
            · simp only [putStop] at hstop ⊢
              split at hstop
              next hfile =>
                obtain rfl := Option.some.inj hstop
                rw [if_pos hfile]
              · cases hstop
          rw [hstop, if_neg (Option.some_ne_none f)] at h
          obtain ⟨-, rfl, rfl⟩ := by simpa using h
          refine .failed (e := writeError) ?_ hfits
          rw [hrun, hf, if_neg (Option.some_ne_none f)]

/-- An entry against a fault is a step of the turn store. -/
theorem TurnStep.of_entry {c : TurnCall} {now : UInt64} {s : TurnStore} {w : Entry}
    (hw : s.entryOf now c = .ok w) (d : DataDir) (fault : Option (Fault DataFile))
    (hfits : (w.onto d (w.stop fault)).Fits) :
    TurnStep ⟨some s, d⟩ (w.event c now fault)
      ⟨some (s.after w (d .turnsLog).length (w.stop fault)), w.onto d (w.stop fault)⟩ := by
  have hrun := fun fault => TurnCall.run_eq c now s d fault
  simp only [hw, Entry.outcome] at hrun
  rw [Entry.event]
  cases hstop : w.stop fault with
  | none => exact .acked hw (hrun none) (hstop ▸ hfits)
  | some f =>
      have hf : w.stop (some f) = some f := by
        rcases fault with _ | g
        · cases hstop
        · simp only [Entry.stop] at hstop ⊢
          split at hstop
          next hfile =>
            obtain rfl := Option.some.inj hstop
            rw [if_pos hfile]
          · cases hstop
      have hrun := hrun (some f)
      rw [hf, if_neg (Option.some_ne_none f)] at hrun
      exact .failed hw hrun (hstop ▸ hfits)

/-! ### The calls -/

variable {z : Zstd} {blake3 : Bytes → Hash}

/-- What a call does: a put and a call of the turn store, in this order, each of them if the
call comes to it. The payload of a turn has been put when its record is written. -/
structure StoreCall.Parts (z : Zstd) (blake3 : Bytes → Hash) (c : StoreCall) (now : UInt64)
    (fault : Option (Fault DataFile)) (s s' : Stores) (d d' : DataDir) : Prop where
  put : Perhaps (BlobStep z) (c.putEvent? z blake3 s fault)
    ⟨some s.blobStore, d.only blobFiles⟩ ⟨some s'.blobStore, d'.only blobFiles⟩
  call : Perhaps TurnStep (c.turnEvent? z blake3 s now fault)
    ⟨some s.turnStore, d.only turnFiles⟩ ⟨some s'.turnStore, d'.only turnFiles⟩
  payload : ∀ e ∈ c.turnEvent? z blake3 s now fault, ∀ p ∈ e.write, ∀ t ∈ p.1.turn,
    t.1.payloadHash ∈ s'.blobStore.index
  grows : ∃ more, d' .blobsPack = d .blobsPack ++ more

/-- Only the turn store writes. -/
theorem onto_only_turnFiles {s : TurnStore} {c : TurnCall} {now : UInt64} {w : Entry}
    (hw : s.entryOf now c = .ok w) {d : DataDir} {fault : Option (Fault DataFile)}
    (hfits : (w.onto d (w.stop fault)).Fits) :
    TurnStep ⟨some s, d.only turnFiles⟩ (w.event c now fault)
      ⟨some (s.after w (d .turnsLog).length (w.stop fault)),
        (w.onto d (w.stop fault)).only turnFiles⟩ := by
  have hstep := TurnStep.of_entry hw (d.only turnFiles) fault
    (by rw [Entry.onto_only]; exact hfits.only _)
  rwa [Entry.onto_only, DataDir.only_of_mem d (by decide)] at hstep

/-- The files of the blob store, when the turn store has written. -/
theorem onto_only_blobFiles (w : Entry) (d : DataDir) (stop : Option (Fault DataFile)) :
    (w.onto d stop).only blobFiles = d.only blobFiles :=
  DataDir.only_congr fun _ hfile => w.onto_of_notMem d stop (notMem_turnFiles hfile)

/-- A put changes no file of the turn store, and the pack only grows. -/
theorem putIfAbsent_frame {hash : Hash} {raw : Bytes} {s s' : BlobStore} {d d' : DataDir}
    {fault : Option (Fault DataFile)} {x : Except StoreError BlobIndexEntry}
    (h : runCall (putIfAbsent z hash raw) s d fault = (x, s', d')) :
    d'.only turnFiles = d.only turnFiles ∧ ∃ more, d' .blobsPack = d .blobsPack ++ more := by
  have honto : ∀ stop, (putOnto z hash raw d stop).only turnFiles = d.only turnFiles := by
    intro stop
    refine DataDir.only_congr fun file hfile => putOnto_of_notMem z hash raw d stop ?_
    exact fun hblob => notMem_turnFiles hblob hfile
  rw [putIfAbsent_run] at h
  split at h
  · obtain ⟨-, rfl, rfl⟩ := by simpa using h
    exact ⟨rfl, [], (List.append_nil _).symm⟩
  · split at h <;> obtain ⟨-, rfl, rfl⟩ := by simpa using h
    · exact ⟨honto _, _, rfl⟩
    · exact ⟨honto _, _, rfl⟩

theorem turnEvent?_of_proceeds {c : StoreCall} {tc : TurnCall} {s : Stores} {now : UInt64}
    {fault : Option (Fault DataFile)} (hc : c.turnCall = some tc)
    (hproceeds : c.Proceeds z blake3 s fault) :
    c.turnEvent? z blake3 s now fault =
      (s.turnStore.entryOf now tc).toOption.map fun w => w.event tc now fault := by
  rw [StoreCall.turnEvent?, if_pos hproceeds, hc]
  exact Option.map_eq_bind.symm

/-- A call that only the turn store sees. -/
theorem IsContextCall.parts {c : StoreCall} {tc : TurnCall} (hc : IsContextCall c tc)
    (hproceeds : ∀ s fault, c.Proceeds z blake3 s fault) (hturn : ∀ s now w,
      TurnStore.entryOf s now tc = .ok w → w.turn = none) {now : UInt64}
    {fault : Option (Fault DataFile)} {s s' : Stores} {d d' : DataDir}
    {x : Except StoreError StoreReply}
    (h : runCall (c.run z blake3 now) s d fault = (x, s', d')) (hfits : d'.Fits) :
    c.Parts z blake3 now fault s s' d d' := by
  have hput : c.putEvent? z blake3 s fault = none := by
    rw [StoreCall.putEvent?, hc.blob]
    rfl
  have hcall : c.turnEvent? z blake3 s now fault =
      (s.turnStore.entryOf now tc).toOption.map fun w => w.event tc now fault :=
    turnEvent?_of_proceeds hc.turnCall (hproceeds s fault)
  rw [hc.run, runCall_map, onTurns, runCall_zoom, TurnCall.run_eq] at h
  cases hw : s.turnStore.entryOf now tc with
  | error e =>
      rw [hw] at h hcall
      obtain ⟨-, rfl, rfl⟩ := by simpa using h
      exact ⟨by rw [hput]; rfl, by rw [hcall]; rfl, by rw [hcall]; simp [Except.toOption],
        [], (List.append_nil _).symm⟩
  | ok w =>
      rw [hw] at h hcall
      simp only [Entry.outcome, Prod.mk.injEq] at h
      obtain ⟨-, rfl, rfl⟩ := h
      refine ⟨?_, ?_, ?_, [], ?_⟩
      · rw [hput]
        simp only [Perhaps, onto_only_blobFiles]
      · rw [hcall]
        exact onto_only_turnFiles hw hfits
      · intro e he p hp t ht
        rw [hcall] at he
        obtain rfl : w.event tc now fault = e := by simpa [Except.toOption] using he
        have hnone := hturn _ _ _ hw
        rw [Entry.event] at hp
        split at hp <;>
          · simp only [TurnEvent.write, Option.mem_def, Option.some.injEq] at hp
            subst hp
            simp [hnone] at ht
      · rw [Entry.onto_of_notMem w d _ (by decide), List.append_nil]

/-- An append. -/
theorem appendTurn_parts {r : AppendRequest} {now : UInt64}
    {fault : Option (Fault DataFile)} {s s' : Stores} {d d' : DataDir}
    {x : Except StoreError StoreReply}
    (h : runCall (StoreCall.run z blake3 now (.appendTurn r)) s d fault = (x, s', d'))
    (hfits : d'.Fits) : (StoreCall.appendTurn r).Parts z blake3 now fault s s' d d' := by
  rw [appendTurn_run_call] at h
  cases hr : r.checked z blake3 with
  | error e =>
      rw [hr] at h
      obtain ⟨-, rfl, rfl⟩ := by simpa using h
      have hput : (StoreCall.appendTurn r).putEvent? z blake3 s fault = none := by
        simp [StoreCall.putEvent?, StoreCall.blob, hr, Except.toOption]
      have hcall : (StoreCall.appendTurn r).turnEvent? z blake3 s now fault = none := by
        simp [StoreCall.turnEvent?, StoreCall.Proceeds, hr, Except.toOption]
      exact ⟨by rw [hput]; rfl, by rw [hcall]; rfl, by rw [hcall]; simp, [],
        (List.append_nil _).symm⟩
  | ok raw =>
      rw [hr] at h
      dsimp only at h
      rcases hrun : runCall (putIfAbsent z r.contentHash raw) s.blobStore d fault with
        ⟨y, b, d₁⟩
      rw [hrun] at h
      have hput : (StoreCall.appendTurn r).putEvent? z blake3 s fault =
          some (s.blobStore.putEvent (r.contentHash, raw) fault) := by
        rw [StoreCall.putEvent?, blob_appendTurn hr]
        rfl
      obtain ⟨hturns, more, hmore⟩ := putIfAbsent_frame hrun
      have hproceeds : (StoreCall.appendTurn r).Proceeds z blake3 s fault ↔
          r.contentHash ∈ s.blobStore.index ∨ putStop fault = none := by
        simp [StoreCall.Proceeds, hr, Except.toOption]
      have hrun' := hrun
      rw [putIfAbsent_run] at hrun'
      cases y with
      | error e =>
          -- The put was cut off, and the turn store sees nothing of the call.
          obtain ⟨-, rfl, rfl⟩ := by simpa using h
          have hcall : (StoreCall.appendTurn r).turnEvent? z blake3 s now fault = none := by
            rw [StoreCall.turnEvent?, if_neg]
            rw [hproceeds]
            rintro (hmem | hstop)
            · obtain ⟨entry, hl⟩ := Finmap.mem_iff.mp hmem
              simp [hl] at hrun'
            · split at hrun'
              · simp at hrun'
              · simp [hstop] at hrun'
          refine ⟨?_, ?_, ?_, more, hmore⟩
          · rw [hput]
            exact (BlobStep.of_put (r.contentHash, raw) hrun hfits).only
          · rw [hcall]
            simp only [Perhaps, hturns]
          · rw [hcall]
            simp
      | ok entry =>
          have hindex : r.contentHash ∈ b.index := by
            split at hrun'
            next entry' hl =>
              obtain ⟨-, rfl, -⟩ := by simpa using hrun'
              exact Finmap.mem_iff.mpr ⟨entry', hl⟩
            · split at hrun'
              · obtain ⟨-, rfl, -⟩ := by simpa using hrun'
                exact Finmap.mem_insert.mpr (Or.inl rfl)
              · simp at hrun'
          have hyes : (StoreCall.appendTurn r).Proceeds z blake3 s fault := by
            rw [hproceeds]
            split at hrun'
            next entry' hl => exact Or.inl (Finmap.mem_iff.mpr ⟨entry', hl⟩)
            · split at hrun'
              next hstop => exact Or.inr hstop
              · simp at hrun'
          have hcall : (StoreCall.appendTurn r).turnEvent? z blake3 s now fault =
              (s.turnStore.entryOf now (.appendTurn r.args)).toOption.map
                fun w => w.event (.appendTurn r.args) now fault :=
            turnEvent?_of_proceeds rfl hyes
          dsimp only at h
          rw [TurnCall.run_eq] at h
          cases hw : s.turnStore.entryOf now (.appendTurn r.args) with
          | error e =>
              rw [hw] at h hcall
              obtain ⟨-, rfl, rfl⟩ := by simpa using h
              refine ⟨?_, ?_, ?_, more, hmore⟩
              · rw [hput]
                exact (BlobStep.of_put (r.contentHash, raw) hrun hfits).only
              · rw [hcall]
                simp only [Perhaps, Except.toOption, Option.map_none, hturns]
              · rw [hcall]
                simp [Except.toOption]
          | ok w =>
              rw [hw] at h hcall
              simp only [Entry.outcome, Prod.mk.injEq] at h
              obtain ⟨-, rfl, rfl⟩ := h
              refine ⟨?_, ?_, ?_, more, ?_⟩
              · rw [hput, onto_only_blobFiles]
                exact (BlobStep.of_put (r.contentHash, raw) hrun hfits.of_onto).only
              · rw [hcall]
                simp only [Except.toOption, Option.map_some, Perhaps]
                rw [← hturns]
                exact onto_only_turnFiles hw hfits
              · intro e he p hp t ht
                rw [hcall] at he
                obtain rfl : w.event (.appendTurn r.args) now fault = e := by
                  simpa [Except.toOption] using he
                have hpw : p.1 = w := by
                  rw [Entry.event] at hp
                  split at hp <;>
                    · simp only [TurnEvent.write, Option.mem_def, Option.some.injEq] at hp
                      rw [← hp]
                rw [hpw] at ht
                obtain ⟨q, -, rfl⟩ := entryOf_append hw
                obtain rfl := Option.some.inj ht
                exact hindex
              · rw [Entry.onto_of_notMem w d₁ _ (by decide), hmore]

/-- A request to put a blob. -/
theorem putBlob_parts {hash : Hash} {data : Bytes} {now : UInt64}
    {fault : Option (Fault DataFile)} {s s' : Stores} {d d' : DataDir}
    {x : Except StoreError StoreReply}
    (h : runCall (StoreCall.run z blake3 now (.putBlob hash data)) s d fault = (x, s', d'))
    (hfits : d'.Fits) : (StoreCall.putBlob hash data).Parts z blake3 now fault s s' d d' := by
  have hcall : (StoreCall.putBlob hash data).turnEvent? z blake3 s now fault = none :=
    if_pos trivial
  rw [putBlob_run] at h
  by_cases hhash : blake3 data = hash
  · rw [if_pos hhash] at h
    rcases hrun : runCall (putIfAbsent z hash data) s.blobStore d fault with ⟨y, b, d₁⟩
    rw [hrun] at h
    obtain ⟨-, rfl, rfl⟩ := by simpa using h
    obtain ⟨hturns, more, hmore⟩ := putIfAbsent_frame hrun
    refine ⟨?_, ?_, by rw [hcall]; simp, more, hmore⟩
    · simp only [StoreCall.putEvent?, StoreCall.blob, if_pos hhash, Option.map_some]
      exact (BlobStep.of_put (hash, data) hrun hfits).only
    · rw [hcall]
      simp only [Perhaps, hturns]
  · rw [if_neg hhash] at h
    obtain ⟨-, rfl, rfl⟩ := by simpa using h
    refine ⟨?_, by rw [hcall]; rfl, by rw [hcall]; simp, [], (List.append_nil _).symm⟩
    simp only [StoreCall.putEvent?, StoreCall.blob, if_neg hhash]
    rfl

/-- An attachment writes to a file of its own. -/
theorem attachFs_parts {turnId : UInt64} {fsRootHash : Hash} {now : UInt64}
    {fault : Option (Fault DataFile)} {s s' : Stores} {d d' : DataDir}
    {x : Except StoreError StoreReply}
    (h : runCall (StoreCall.run z blake3 now (.attachFs turnId fsRootHash)) s d fault =
      (x, s', d')) :
    (StoreCall.attachFs turnId fsRootHash).Parts z blake3 now fault s s' d d' := by
  have hput : (StoreCall.attachFs turnId fsRootHash).putEvent? z blake3 s fault = none := rfl
  have hcall : (StoreCall.attachFs turnId fsRootHash).turnEvent? z blake3 s now fault =
      none := if_pos trivial
  have hkeeps : s'.blobStore = s.blobStore ∧ s'.turnStore = s.turnStore ∧
      ∀ file, file ≠ .rootsIdx → d' file = d file := by
    have hroot : ∀ stop file, file ≠ .rootsIdx →
        rootOnto (turnId, fsRootHash) d stop file = d file :=
      fun stop file hne => Function.update_of_ne hne _ _
    rw [StoreCall.run, runCall_map, Stores.attachFs_run] at h
    split at h
    · obtain ⟨-, rfl, rfl⟩ := by simpa using h
      exact ⟨rfl, rfl, fun _ _ => rfl⟩
    · split at h
      · split at h <;> obtain ⟨-, rfl, rfl⟩ := by simpa using h
        · exact ⟨rfl, rfl, hroot _⟩
        · exact ⟨rfl, rfl, hroot _⟩
      · obtain ⟨-, rfl, rfl⟩ := by simpa using h
        exact ⟨rfl, rfl, fun _ _ => rfl⟩
  obtain ⟨hblobs, hturns, hfiles⟩ := hkeeps
  refine ⟨?_, ?_, by rw [hcall]; simp, [], ?_⟩
  · rw [hput]
    simp only [Perhaps, hblobs]
    exact congrArg _ (DataDir.only_congr fun file hfile =>
      hfiles file (by rintro rfl; simp [blobFiles] at hfile))
  · rw [hcall]
    simp only [Perhaps, hturns]
    exact congrArg _ (DataDir.only_congr fun file hfile =>
      hfiles file (by rintro rfl; simp [turnFiles] at hfile))
  · rw [hfiles _ (by decide), List.append_nil]

/-- **The parts of a call**, against every fault. -/
theorem StoreCall.run_parts {c : StoreCall} {now : UInt64} {fault : Option (Fault DataFile)}
    {s s' : Stores} {d d' : DataDir} {x : Except StoreError StoreReply}
    (h : runCall (c.run z blake3 now) s d fault = (x, s', d')) (hfits : d'.Fits) :
    c.Parts z blake3 now fault s s' d d' := by
  have hcreate : ∀ (s : TurnStore) now base w, s.entryOf now (.createContext base) = .ok w →
      w.turn = none := by
    intro s now base w hw
    obtain ⟨b, -, rfl⟩ := entryOf_create hw
    rfl
  cases c with
  | createContext base =>
      exact (isContextCall_create base).parts (fun _ _ => trivial)
        (fun s now => hcreate s now base) h hfits
  | forkContext base =>
      exact (isContextCall_fork base).parts (fun _ _ => trivial)
        (fun s now => hcreate s now base) h hfits
  | appendTurn r => exact appendTurn_parts h hfits
  | putBlob hash data => exact putBlob_parts h hfits
  | attachFs turnId fsRootHash => exact attachFs_parts h

/-! ### The steps -/

/-- **What a step can do**: open the directory, or run a call, after which the process may be
gone. -/
theorem StoreSystem.act_cases {m m' : StoreSystem} {a : StoreAct}
    (h : m.act z blake3 a = some m') :
    (a = .opening ∧ ∃ s d', Stores.openDir m.disk = .ok (s, d') ∧ m' = ⟨some s, d'⟩) ∨
    ∃ c now fault dies s x s', a = .call c now fault dies ∧ m.proc = some s ∧
      runCall (c.run z blake3 now) s m.disk fault = (x, s', m'.disk) ∧
      c.Parts z blake3 now fault s s' m.disk m'.disk ∧
      (m'.proc = some s' ∨ m'.proc = none) := by
  cases a with
  | opening =>
      simp only [act] at h
      split at h
      · cases h
      next s d' ho => exact Or.inl ⟨rfl, s, d', ho, (Option.some.inj h).symm⟩
  | call c now fault dies =>
      obtain ⟨s, hs, h⟩ := Option.bind_eq_some_iff.mp h
      rcases hrun : runCall (c.run z blake3 now) s m.disk fault with ⟨x, s', d'⟩
      simp only [hrun] at h
      split at h
      next hfits =>
        obtain rfl := Option.some.inj h
        refine Or.inr ⟨c, now, fault, dies, s, x, s', rfl, hs, hrun,
          StoreCall.run_parts hrun hfits, ?_⟩
        dsimp only
        split
        · exact Or.inr rfl
        · exact Or.inl rfl
      · cases h

/-! ### Short runs -/

/-- An append of the empty payload to the head of a context. -/
def emptyTurn (contextId : UInt64) : AppendRequest :=
  { contextId, parentTurnId := 0, declaredTypeId := "", declaredTypeVersion := 1, encoding := 1,
    compression := 0, uncompressedLen := 0, contentHash := emptyHash, payloadBytes := [] }

/-- The call ends well, or the process goes on. -/
def emptyAct (contextId now : UInt64) (fault : Option (Fault DataFile)) : StoreAct :=
  .call (.appendTurn (emptyTurn contextId)) now fault false

/-- A context with two turns. -/
def twoTurnActs : List StoreAct :=
  [.opening, .call (.createContext 0) 0 none false, emptyAct 1 1 none, emptyAct 1 2 none]

end Cxdb
