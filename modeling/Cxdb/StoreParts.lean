import Cxdb.BlobSystem
import Cxdb.Stores
import Cxdb.TurnSystem

/-!
# The Stores as Parts of One Process

One process runs a blob store, a turn store and an index of snapshot roots over one data
directory. They write to files of their own, and each of them is a system that has been
looked at before; a step of the process is a step of one of them, or the opening of all
of them. When one store dies in a crash, the others die with it.

`StoreSystem.turns` and `StoreSystem.blobs` are what the turn store and the blob store see
of the whole.

## Main results

* `turnRun`, `blobRun`: a run of the process is, for each of the two stores, a run of its
  own system.
* `openDir_of_parts`: the directory opens as soon as both stores open.
-/

open ByteFormat FaultyDisk RecordLog Transition

namespace Cxdb

/-! ### Files of a part -/

/-- The directory with some of its files only. -/
def DataDir.only (d : DataDir) (files : List DataFile) : DataDir :=
  fun file => if file ∈ files then d file else []

/-- The files of the turn store. -/
def turnFiles : List DataFile := [.turnsLog, .turnsIdx, .turnsMeta, .headsTbl]

/-- The files of the blob store. -/
def blobFiles : List DataFile := [.blobsPack, .blobsIdx]

theorem DataDir.only_of_mem (d : DataDir) {files : List DataFile} {file : DataFile}
    (h : file ∈ files) : d.only files file = d file :=
  if_pos h

theorem DataDir.only_congr {d d' : DataDir} {files : List DataFile}
    (h : ∀ file ∈ files, d' file = d file) : d'.only files = d.only files := by
  funext file
  by_cases hf : file ∈ files
  · rw [only_of_mem d' hf, only_of_mem d hf, h file hf]
  · simp [only, hf]

theorem DataDir.only_update (d : DataDir) {files : List DataFile} {file : DataFile}
    (h : file ∉ files) (bs : Bytes) :
    DataDir.only (Function.update d file bs) files = d.only files :=
  only_congr fun _ hf => Function.update_of_ne (ne_of_mem_of_not_mem hf h) _ _

theorem DataDir.only_empty (files : List DataFile) :
    DataDir.empty.only files = DataDir.empty := by
  funext file
  simp [only, empty]

theorem DataDir.Fits.only {d : DataDir} (h : d.Fits) (files : List DataFile) :
    (d.only files).Fits := by
  intro file
  unfold DataDir.only
  split
  · exact h file
  · simp

/-! ### The system -/

/-- A process with its stores, if one is running, and the data directory. -/
structure StoreSystem where
  proc : Option Stores
  disk : DataDir

/-- No process has opened the empty directory yet. -/
def StoreSystem.initial : StoreSystem := ⟨none, DataDir.empty⟩

/-- What the turn store sees. -/
def StoreSystem.turns (m : StoreSystem) : TurnSystem :=
  ⟨m.proc.map Stores.turnStore, m.disk.only turnFiles⟩

/-- What the blob store sees. -/
def StoreSystem.blobs (m : StoreSystem) : BlobSystem :=
  ⟨m.proc.map Stores.blobStore, m.disk.only blobFiles⟩

inductive PartEvent where
  | opened
  | put (e : BlobEvent)
  | call (e : TurnEvent)
  | attached (turnId : UInt64) (fsRootHash : Hash)
  | attachCrashed (turnId : UInt64) (fsRootHash : Hash) (f : Fault DataFile)

/-- The steps of the system. -/
inductive PartStep (z : Zstd) : StoreSystem → PartEvent → StoreSystem → Prop
  | opened {p : Option Stores} {d d' : DataDir} {s : Stores} :
      Stores.openDir d = .ok (s, d') → PartStep z ⟨p, d⟩ .opened ⟨some s, d'⟩
  | put {e : BlobEvent} {s : Stores} {b : Option BlobStore} {d d' : DataDir} :
      e ≠ .opened → BlobStep z ⟨some s.blobStore, d⟩ e ⟨b, d'⟩ →
      PartStep z ⟨some s, d⟩ (.put e) ⟨b.map fun blobStore => { s with blobStore }, d'⟩
  | call {e : TurnEvent} {s : Stores} {t : Option TurnStore} {d d' : DataDir} :
      e ≠ .opened → TurnStep ⟨some s.turnStore, d⟩ e ⟨t, d'⟩ →
      PartStep z ⟨some s, d⟩ (.call e) ⟨t.map fun turnStore => { s with turnStore }, d'⟩
  | attached {turnId : UInt64} {fsRootHash : Hash} {s s' : Stores} {d d' : DataDir} :
      runCall (Stores.attachFs turnId fsRootHash) s d none = (.ok (), s', d') → d'.Fits →
      PartStep z ⟨some s, d⟩ (.attached turnId fsRootHash) ⟨some s', d'⟩
  | attachCrashed {turnId : UInt64} {fsRootHash : Hash} {f : Fault DataFile} {s s' : Stores}
      {d d' : DataDir} :
      runCall (Stores.attachFs turnId fsRootHash) s d (some f) =
        (.error writeError, s', d') → d'.Fits →
      PartStep z ⟨some s, d⟩ (.attachCrashed turnId fsRootHash f) ⟨none, d'⟩

/-- The event, if it is one of the turn store. -/
def PartEvent.turn? : PartEvent → Option TurnEvent
  | .opened => some .opened
  | .call e => some e
  | .put _ | .attached _ _ | .attachCrashed _ _ _ => none

/-- The event, if it is one of the blob store. -/
def PartEvent.blob? : PartEvent → Option BlobEvent
  | .opened => some .opened
  | .put e => some e
  | .call _ | .attached _ _ | .attachCrashed _ _ _ => none

/-- The events of the turn store in a run. -/
def turnEvents (es : List PartEvent) : List TurnEvent := es.filterMap PartEvent.turn?

/-- The events of the blob store in a run. -/
def blobEvents (es : List PartEvent) : List BlobEvent := es.filterMap PartEvent.blob?

/-! ### The turn store in its own files -/

theorem Entry.onto_only (w : Entry) (d : DataDir) (stop : Option (Fault DataFile)) :
    w.onto (d.only turnFiles) stop = (w.onto d stop).only turnFiles := by
  funext file
  cases file <;> simp [Entry.onto, Entry.bytes, DataDir.only, turnFiles]

/-- A call leaves the files of the other stores alone. -/
theorem Entry.onto_of_notMem (w : Entry) (d : DataDir) (stop : Option (Fault DataFile))
    {file : DataFile} (h : file ∉ turnFiles) : w.onto d stop file = d file := by
  cases file <;> simp [turnFiles] at h <;> simp [Entry.onto, Entry.bytes]

/-- A call in the files of the turn store. -/
theorem TurnCall.run_only {c : TurnCall} {now : UInt64} {s s' : TurnStore} {d d' : DataDir}
    {fault : Option (Fault DataFile)} {r : Except StoreError TurnReply}
    (h : runCall (c.run now) s d fault = (r, s', d')) :
    runCall (c.run now) s (d.only turnFiles) fault = (r, s', d'.only turnFiles) := by
  rw [TurnCall.run_eq] at h ⊢
  cases hw : s.entryOf now c with
  | error e =>
      simp only [hw] at h ⊢
      obtain ⟨rfl, rfl, rfl⟩ := by simpa using h
      rfl
  | ok w =>
      simp only [hw, Entry.outcome, Prod.mk.injEq] at h ⊢
      obtain ⟨rfl, rfl, rfl⟩ := h
      rw [DataDir.only_of_mem d (by decide), Entry.onto_only]
      exact ⟨rfl, rfl, rfl⟩

theorem TurnStore.openDir_only (d : DataDir) :
    TurnStore.openDir (d.only turnFiles) =
      (TurnStore.openDir d).map fun r => (r.1, r.2.only turnFiles) := by
  simp only [TurnStore.openDir, d.only_of_mem (show DataFile.turnsLog ∈ turnFiles by decide),
    d.only_of_mem (show DataFile.turnsMeta ∈ turnFiles by decide),
    d.only_of_mem (show DataFile.headsTbl ∈ turnFiles by decide)]
  cases loadTurns (d .turnsLog) with
  | error e => rfl
  | ok r =>
  cases loadMeta (d .turnsMeta) with
  | error e => rfl
  | ok m =>
  cases loadHeads (d .headsTbl) with
  | error e => rfl
  | ok t =>
      simp only [bind, Except.bind, pure, Except.pure, Except.map]
      congr 2
      funext file
      cases file <;> simp [DataDir.only, turnFiles]

/-- Opening the turn store leaves the files of the other stores alone. -/
theorem TurnStore.openDir_of_notMem {d d' : DataDir} {s : TurnStore} {file : DataFile}
    (h : TurnStore.openDir d = .ok (s, d')) (hfile : file ∉ turnFiles) :
    d' file = d file := by
  simp only [TurnStore.openDir, bind, Except.bind] at h
  split at h
  · exact absurd h (by simp)
  split at h
  · exact absurd h (by simp)
  split at h
  · exact absurd h (by simp)
  simp only [pure, Except.pure, Except.ok.injEq, Prod.mk.injEq] at h
  obtain ⟨-, rfl⟩ := h
  cases file <;> simp [turnFiles] at hfile <;> rfl

/-- A step of the turn store is one in its own files. -/
theorem TurnStep.only {p p' : Option TurnStore} {d d' : DataDir} {e : TurnEvent}
    (h : TurnStep ⟨p, d⟩ e ⟨p', d'⟩) :
    TurnStep ⟨p, d.only turnFiles⟩ e ⟨p', d'.only turnFiles⟩ := by
  cases h with
  | opened ho => exact .opened (by rw [TurnStore.openDir_only, ho]; rfl)
  | acked hw hrun hfits =>
      exact .acked hw (TurnCall.run_only hrun) (hfits.only _)
  | rejected hrun => exact .rejected (TurnCall.run_only hrun)
  | failed hw hrun hfits =>
      exact .failed hw (TurnCall.run_only hrun) (hfits.only _)
  | crashed hw hrun hfits =>
      exact .crashed hw (TurnCall.run_only hrun) (hfits.only _)

/-- A step of the turn store leaves the files of the other stores alone. -/
theorem TurnStep.disk_of_notMem {m m' : TurnSystem} {e : TurnEvent} {file : DataFile}
    (h : TurnStep m e m') (hfile : file ∉ turnFiles) : m'.disk file = m.disk file := by
  rcases h.cases with ⟨-, s, d', ho, rfl⟩ | ⟨c, now, err, s, -, -, -, rfl⟩ |
    ⟨c, now, w, stop, s, -, -, -, -, hdisk, -, -⟩
  · exact TurnStore.openDir_of_notMem ho hfile
  · rfl
  · rw [hdisk, w.onto_of_notMem _ _ hfile]

/-! ### The blob store in its own files -/

theorem putOnto_only (z : Zstd) (hash : Hash) (raw : Bytes) (d : DataDir)
    (stop : Option (Fault DataFile)) :
    putOnto z hash raw (d.only blobFiles) stop = (putOnto z hash raw d stop).only blobFiles := by
  funext file
  cases file <;> simp [putOnto, putBytes, DataDir.only, blobFiles]

/-- A put leaves the files of the other stores alone. -/
theorem putOnto_of_notMem (z : Zstd) (hash : Hash) (raw : Bytes) (d : DataDir)
    (stop : Option (Fault DataFile)) {file : DataFile} (h : file ∉ blobFiles) :
    putOnto z hash raw d stop file = d file := by
  cases file <;> simp [blobFiles] at h <;> simp [putOnto, putBytes]

/-- A put in the files of the blob store. -/
theorem putIfAbsent_only {z : Zstd} {hash : Hash} {raw : Bytes} {s s' : BlobStore}
    {d d' : DataDir} {fault : Option (Fault DataFile)} {r : Except StoreError BlobIndexEntry}
    (h : runCall (putIfAbsent z hash raw) s d fault = (r, s', d')) :
    runCall (putIfAbsent z hash raw) s (d.only blobFiles) fault =
      (r, s', d'.only blobFiles) := by
  rw [putIfAbsent_run] at h ⊢
  cases hs : s.index.lookup hash with
  | some entry =>
      simp only [hs] at h ⊢
      obtain ⟨rfl, rfl, rfl⟩ := by simpa using h
      rfl
  | none =>
      simp only [hs, d.only_of_mem (show DataFile.blobsPack ∈ blobFiles by decide)] at h ⊢
      split at h <;>
        · next hstop =>
            obtain ⟨rfl, rfl, rfl⟩ := by simpa using h
            simp [hstop, putOnto_only]

theorem BlobStore.openDir_only (d : DataDir) :
    BlobStore.openDir (d.only blobFiles) =
      (BlobStore.openDir d).map fun r => (r.1, r.2.only blobFiles) := by
  simp only [BlobStore.openDir, d.only_of_mem (show DataFile.blobsIdx ∈ blobFiles by decide)]
  cases loadIndex (d .blobsIdx) with
  | error e => rfl
  | ok r =>
      simp only [bind, Except.bind, pure, Except.pure, Except.map]
      congr 2
      funext file
      cases file <;> simp [DataDir.only, blobFiles, Function.update]

/-- Opening the blob store leaves the files of the other stores alone. -/
theorem BlobStore.openDir_of_notMem {d d' : DataDir} {s : BlobStore} {file : DataFile}
    (h : BlobStore.openDir d = .ok (s, d')) (hfile : file ∉ blobFiles) :
    d' file = d file := by
  obtain ⟨content, -, rfl⟩ := BlobStore.openDir_ok h
  refine Function.update_of_ne ?_ _ _
  rintro rfl
  exact hfile (by decide)

/-- A step of the blob store is one in its own files. -/
theorem BlobStep.only {z : Zstd} {p p' : Option BlobStore} {d d' : DataDir} {e : BlobEvent}
    (h : BlobStep z ⟨p, d⟩ e ⟨p', d'⟩) :
    BlobStep z ⟨p, d.only blobFiles⟩ e ⟨p', d'.only blobFiles⟩ := by
  cases h with
  | opened ho => exact .opened (by rw [BlobStore.openDir_only, ho]; rfl)
  | found hmem hrun => exact .found hmem (putIfAbsent_only hrun)
  | stored hmem hrun hfits =>
      exact .stored hmem (putIfAbsent_only hrun) (hfits.only _)
  | failed hrun hfits => exact .failed (putIfAbsent_only hrun) (hfits.only _)
  | crashed hrun hfits => exact .crashed (putIfAbsent_only hrun) (hfits.only _)

/-- A step of the blob store leaves the files of the other stores alone. -/
theorem BlobStep.disk_of_notMem {z : Zstd} {m m' : BlobSystem} {e : BlobEvent}
    {file : DataFile} (h : BlobStep z m e m') (hfile : file ∉ blobFiles) :
    m'.disk file = m.disk file := by
  rcases h.cases with ⟨-, s, d', ho, rfl⟩ | ⟨hash, raw, s, -, -, -, rfl⟩ |
    ⟨blob, stop, s, -, -, -, hdisk, -, -⟩
  · exact BlobStore.openDir_of_notMem ho hfile
  · rfl
  · rw [hdisk, putOnto_of_notMem z _ _ _ _ hfile]

/-! ### The snapshot roots -/

theorem rootsIdxRead_ne_fail (bs : Bytes) (e : StoreError) : rootsIdxRead bs ≠ .fail e := by
  unfold rootsIdxRead
  split
  · simp
  split
  · simp
  split
  · simp
  split <;> simp

/-- The roots index opens whatever its file holds. -/
theorem FsRootsIndex.openDir_eq_ok (d : DataDir) :
    ∃ s d', FsRootsIndex.openDir d = .ok (s, d') ∧
      ∀ file, file ≠ .rootsIdx → d' file = d file := by
  obtain ⟨r, hr⟩ := exists_scan_eq_ok rootsIdxRead_ne_fail
    (fun (s : HashMap UInt64 Hash) _ root => s.insert root.1 root.2) ∅ (d .rootsIdx)
  refine ⟨⟨r.1⟩, Function.update d .rootsIdx r.2, ?_, fun file hne =>
    Function.update_of_ne hne _ _⟩
  simp [FsRootsIndex.openDir, loadRoots, hr, bind, Except.bind, pure, Except.pure]

theorem FsRootsIndex.openDir_of_ne {d d' : DataDir} {s : FsRootsIndex} {file : DataFile}
    (h : FsRootsIndex.openDir d = .ok (s, d')) (hfile : file ≠ .rootsIdx) :
    d' file = d file := by
  obtain ⟨s', d'', ho, hframe⟩ := FsRootsIndex.openDir_eq_ok d
  rw [ho] at h
  obtain ⟨-, rfl⟩ := by simpa using h
  exact hframe file hfile

@[simp] theorem length_encodeRoot (root : UInt64 × Hash) : (encodeRoot root).length = 44 := by
  simp [encodeRoot, rootBody]

/-- The fault, if the write of a root record stops at it. Nothing syncs the file. -/
def rootStop : Option (Fault DataFile) → Option (Fault DataFile)
  | none => none
  | some f => if f.file = .rootsIdx ∧ f.bytes < 44 then some f else none

/-- The files after an attachment that stops at `stop`. -/
def rootOnto (root : UInt64 × Hash) (d : DataDir) (stop : Option (Fault DataFile)) : DataDir :=
  Function.update d .rootsIdx (d .rootsIdx ++ written stop .rootsIdx (encodeRoot root))

/-- **The specification of `attach_fs`.** A turn and a blob that are there get a record in
the roots file; otherwise nothing changes. -/
theorem Stores.attachFs_run (turnId : UInt64) (fsRootHash : Hash) (s : Stores)
    (d : DataDir) (fault : Option (Fault DataFile)) :
    runCall (Stores.attachFs turnId fsRootHash) s d fault =
      match s.turnStore.getTurn turnId with
      | .error e => (.error e, s, d)
      | .ok _ =>
        if s.blobStore.contains fsRootHash then
          if rootStop fault = none then
            (.ok (), { s with fsRoots := ⟨s.fsRoots.roots.insert turnId fsRootHash⟩ },
              rootOnto (turnId, fsRootHash) d none)
          else (.error writeError, s, rootOnto (turnId, fsRootHash) d (rootStop fault))
        else (.error (.notFound "fs root tree blob"), s, d) := by
  rw [Stores.attachFs, runCall_bind]
  cases ht : s.turnStore.getTurn turnId with
  | error e => simp [getMem, runCall, bind, EStateM.bind, liftExcept, ht]
  | ok t =>
      by_cases hc : s.blobStore.contains fsRootHash
      · rcases fault with _ | ⟨file, n⟩
        · simp [runCall, bind, EStateM.bind, getMem, liftExcept, ht, hc, onRoots, zoom, attach,
            seekEnd, writeAll, modifyMem, rootStop, rootOnto]
        · by_cases hfile : file = .rootsIdx
          · by_cases hn : n < 44
            · have hn' : ¬ 44 ≤ n := Nat.not_le.mpr hn
              simp [runCall, bind, EStateM.bind, getMem, liftExcept, ht, hc, onRoots, zoom,
                attach, seekEnd, writeAll, rootStop, rootOnto, hfile, hn, hn', written]
            · have hn' : 44 ≤ n := Nat.le_of_not_lt hn
              simp [runCall, bind, EStateM.bind, getMem, liftExcept, ht, hc, onRoots, zoom,
                attach, seekEnd, writeAll, modifyMem, rootStop, rootOnto, hfile, hn']
          · simp [runCall, bind, EStateM.bind, getMem, liftExcept, ht, hc, onRoots, zoom,
              attach, seekEnd, writeAll, modifyMem, rootStop, rootOnto, hfile]
      · simp [runCall, bind, EStateM.bind, getMem, liftExcept, ht, hc]

/-- What an attachment that writes has found and done. -/
theorem attachFs_cases {turnId : UInt64} {fsRootHash : Hash} {s s' : Stores} {d d' : DataDir}
    {fault : Option (Fault DataFile)} {r : Except StoreError Unit}
    (h : runCall (Stores.attachFs turnId fsRootHash) s d fault = (r, s', d'))
    (hr : r = .ok () ∨ r = .error writeError) :
    turnId ∈ s.turnStore.turns ∧ s.blobStore.contains fsRootHash = true ∧
      s'.turnStore = s.turnStore ∧ s'.blobStore = s.blobStore ∧
      (r = .ok () → s'.fsRoots = ⟨s.fsRoots.roots.insert turnId fsRootHash⟩) ∧
      ∃ stop, d' = rootOnto (turnId, fsRootHash) d stop ∧ (r = .ok () → stop = none) := by
  rw [Stores.attachFs_run] at h
  have hturn : ∀ t, s.turnStore.getTurn turnId = .ok t → turnId ∈ s.turnStore.turns := by
    intro t ht
    cases hl : s.turnStore.turns.lookup turnId with
    | none => simp [TurnStore.getTurn, hl] at ht
    | some t' => exact Finmap.mem_of_lookup_eq_some hl
  split at h
  · next e he =>
      obtain ⟨rfl, -⟩ := by simpa using h
      simp only [reduceCtorEq, false_or, Except.error.injEq] at hr
      subst hr
      unfold TurnStore.getTurn at he
      split at he <;> simp [writeError] at he
  next t ht =>
  split at h
  next hc =>
    split at h <;> obtain ⟨rfl, rfl, rfl⟩ := by simpa using h
    · exact ⟨hturn t ht, hc, rfl, rfl, fun _ => rfl, none, rfl, fun _ => rfl⟩
    · exact ⟨hturn t ht, hc, rfl, rfl, fun h => by simp at h, _, rfl, fun h => by simp at h⟩
  · obtain ⟨rfl, -⟩ := by simpa using h
    simp [writeError] at hr

/-! ### Opening -/

/-- The parts of opening. -/
theorem Stores.openDir_ok {d d' : DataDir} {s : Stores}
    (h : Stores.openDir d = .ok (s, d')) :
    BlobStore.openDir (d.only blobFiles) = .ok (s.blobStore, d'.only blobFiles) ∧
      TurnStore.openDir (d.only turnFiles) = .ok (s.turnStore, d'.only turnFiles) := by
  simp only [Stores.openDir, bind, Except.bind] at h
  split at h
  · exact absurd h (by simp)
  next b hb =>
  split at h
  · exact absurd h (by simp)
  next t ht =>
  split at h
  · exact absurd h (by simp)
  next f hf =>
  simp only [pure, Except.pure, Except.ok.injEq, Prod.mk.injEq] at h
  obtain ⟨rfl, rfl⟩ := h
  have hroots : ∀ file, file ≠ .rootsIdx → f.2 file = t.2 file :=
    fun file => FsRootsIndex.openDir_of_ne hf
  rw [BlobStore.openDir_only, TurnStore.openDir_only, hb]
  have hblob : f.2.only blobFiles = b.2.only blobFiles := by
    refine DataDir.only_congr fun file hfile => ?_
    rw [hroots file (by rintro rfl; simp [blobFiles] at hfile)]
    exact TurnStore.openDir_of_notMem ht (by revert hfile; cases file <;> decide)
  have hturn : (TurnStore.openDir d).map (fun r => (r.1, r.2.only turnFiles)) =
      .ok (t.1, t.2.only turnFiles) := by
    have hsame : b.2.only turnFiles = d.only turnFiles :=
      DataDir.only_congr fun file hfile =>
        BlobStore.openDir_of_notMem hb (by revert hfile; cases file <;> decide)
    rw [← TurnStore.openDir_only, ← hsame, TurnStore.openDir_only, ht]
    rfl
  have hturn' : f.2.only turnFiles = t.2.only turnFiles :=
    DataDir.only_congr fun file hfile =>
      hroots file (by rintro rfl; simp [turnFiles] at hfile)
  exact ⟨by rw [hblob]; rfl, by rw [hturn, hturn']⟩

/-- **The directory opens as soon as both stores open.** -/
theorem openDir_of_parts {d db dt : DataDir} {b : BlobStore} {t : TurnStore}
    (hb : BlobStore.openDir (d.only blobFiles) = .ok (b, db))
    (ht : TurnStore.openDir (d.only turnFiles) = .ok (t, dt)) :
    ∃ s d', Stores.openDir d = .ok (s, d') ∧ s.blobStore = b ∧ s.turnStore = t ∧
      d'.only blobFiles = db ∧ d'.only turnFiles = dt := by
  have hopen : ∃ s d', Stores.openDir d = .ok (s, d') := by
    rw [BlobStore.openDir_only] at hb
    obtain ⟨b', hb', -⟩ : ∃ r, BlobStore.openDir d = .ok r ∧ (r.1, r.2.only blobFiles) = (b, db) := by
      cases h : BlobStore.openDir d <;> simp_all [Except.map]
    have hsame : b'.2.only turnFiles = d.only turnFiles :=
      DataDir.only_congr fun file hfile =>
        BlobStore.openDir_of_notMem hb' (by revert hfile; cases file <;> decide)
    rw [← hsame, TurnStore.openDir_only] at ht
    obtain ⟨t', ht'⟩ : ∃ r, TurnStore.openDir b'.2 = .ok r := by
      cases h : TurnStore.openDir b'.2 <;> simp_all [Except.map]
    obtain ⟨f, df, hf, -⟩ := FsRootsIndex.openDir_eq_ok t'.2
    exact ⟨⟨b'.1, t'.1, f⟩, df, by
      simp [Stores.openDir, hb', ht', hf, bind, Except.bind, pure, Except.pure]⟩
  obtain ⟨s, d', ho⟩ := hopen
  obtain ⟨hb', ht'⟩ := Stores.openDir_ok ho
  rw [hb] at hb'
  rw [ht] at ht'
  obtain ⟨rfl, rfl⟩ := by simpa using hb'
  obtain ⟨rfl, rfl⟩ := by simpa using ht'
  exact ⟨s, d', ho, rfl, rfl, rfl, rfl⟩

/-! ### Runs of a part -/

section

variable {z : Zstd} {T F : Type} {stepT : T → F → T → Prop} {openedT : F}
  {view : StoreSystem → T} {disk : T → DataDir} {ev : PartEvent → Option F}

/-- A part of the process: the steps of `stepT` are seen through `view`, and the other
steps leave its files alone and its memory too, unless they end the process. -/
structure IsPart (z : Zstd) (stepT : T → F → T → Prop) (openedT : F)
    (view : StoreSystem → T) (disk : T → DataDir) (ev : PartEvent → Option F) : Prop where
  own : ∀ m e m' f, PartStep z m e m' → ev e = some f →
    (f = openedT ∨ m.proc ≠ none) ∧ stepT (view m) f (view m')
  other : ∀ m e m', PartStep z m e m' → ev e = none →
    disk (view m') = disk (view m) ∧ (m'.proc = none ∨ m.proc ≠ none ∧ view m' = view m)
  opening : ∀ t t' t'', disk t = disk t' → stepT t openedT t'' → stepT t' openedT t''

/-- **A run of the process is a run of each part**, in step with it until the process is
gone; the files are the same all along. -/
theorem IsPart.run (hpart : IsPart z stepT openedT view disk ev)
    {C : StoreSystem → PartEvent → Prop} {D : T → F → Prop} (hopen : ∀ t, D t openedT)
    (hC : ∀ m e f, C m e → ev e = some f → D (view m) f) {es : List PartEvent}
    {m : StoreSystem} (h : Run (Guarded C (PartStep z)) StoreSystem.initial es m) :
    ∃ t, Run (Guarded D stepT) (view StoreSystem.initial) (es.filterMap ev) t ∧
      disk t = disk (view m) ∧ (m.proc ≠ none → t = view m) := by
  refine h.project (R := fun m t => disk t = disk (view m) ∧ (m.proc ≠ none → t = view m))
    ⟨rfl, fun _ => rfl⟩ ?_ ?_
  · rintro m e m' t f ⟨hdisk, hlive⟩ ⟨hCe, hs⟩ he
    obtain ⟨hproc, hstep⟩ := hpart.own m e m' f hs he
    refine ⟨view m', ?_, rfl, fun _ => rfl⟩
    rcases hproc with rfl | hproc
    · exact ⟨hopen t, hpart.opening _ _ _ hdisk.symm hstep⟩
    · rw [hlive hproc]
      exact ⟨hC m e f hCe he, hstep⟩
  · rintro m e m' t ⟨hdisk, hlive⟩ ⟨-, hs⟩ he
    obtain ⟨hsame, hproc'⟩ := hpart.other m e m' hs he
    refine ⟨hdisk.trans hsame.symm, fun hne => ?_⟩
    rcases hproc' with hnone | ⟨hproc, hview⟩
    · exact absurd hnone hne
    · rw [hlive hproc, hview]

end

/-- The turn store is a part. -/
theorem isPart_turns (z : Zstd) :
    IsPart z TurnStep .opened StoreSystem.turns TurnSystem.disk PartEvent.turn? where
  own m e m' f hs he := by
    cases hs with
    | opened ho =>
        obtain rfl := Option.some.inj he
        exact ⟨Or.inl rfl, .opened (Stores.openDir_ok ho).2⟩
    | @call e s t d d' hne hs =>
        obtain rfl := Option.some.inj he
        have hproc : (t.map fun turnStore => { s with turnStore : Stores }).map
            Stores.turnStore = t := by
          cases t <;> rfl
        exact ⟨Or.inr (by simp), by simpa [StoreSystem.turns, hproc] using hs.only⟩
    | put | attached | attachCrashed => simp [PartEvent.turn?] at he
  other m e m' hs he := by
    cases hs with
    | opened | call => simp [PartEvent.turn?] at he
    | @put e s b d d' hne hs =>
        have hdisk : d'.only turnFiles = d.only turnFiles :=
          DataDir.only_congr fun file hfile =>
            hs.disk_of_notMem (by revert hfile; cases file <;> decide)
        refine ⟨hdisk, ?_⟩
        cases b with
        | none => exact Or.inl rfl
        | some b => exact Or.inr ⟨by simp, by simp [StoreSystem.turns, hdisk]⟩
    | attached hrun hfits =>
        obtain ⟨-, -, hturns, -, -, stop, rfl, -⟩ := attachFs_cases hrun (Or.inl rfl)
        simp [StoreSystem.turns, rootOnto, DataDir.only_update, turnFiles, hturns]
    | attachCrashed hrun hfits =>
        obtain ⟨-, -, -, -, -, stop, rfl, -⟩ := attachFs_cases hrun (Or.inr rfl)
        simp [StoreSystem.turns, rootOnto, DataDir.only_update, turnFiles]
  opening := by
    rintro ⟨p, d⟩ ⟨p', d'⟩ t'' hd hs
    obtain rfl : d = d' := hd
    cases hs with
    | opened ho => exact .opened ho

/-- The blob store is a part. -/
theorem isPart_blobs (z : Zstd) :
    IsPart z (BlobStep z) .opened StoreSystem.blobs BlobSystem.disk PartEvent.blob? where
  own m e m' f hs he := by
    cases hs with
    | opened ho =>
        obtain rfl := Option.some.inj he
        exact ⟨Or.inl rfl, .opened (Stores.openDir_ok ho).1⟩
    | @put e s b d d' hne hs =>
        obtain rfl := Option.some.inj he
        have hproc : (b.map fun blobStore => { s with blobStore : Stores }).map
            Stores.blobStore = b := by
          cases b <;> rfl
        exact ⟨Or.inr (by simp), by simpa [StoreSystem.blobs, hproc] using hs.only⟩
    | call | attached | attachCrashed => simp [PartEvent.blob?] at he
  other m e m' hs he := by
    cases hs with
    | opened | put => simp [PartEvent.blob?] at he
    | @call e s t d d' hne hs =>
        have hdisk : d'.only blobFiles = d.only blobFiles :=
          DataDir.only_congr fun file hfile =>
            hs.disk_of_notMem (by revert hfile; cases file <;> decide)
        refine ⟨hdisk, ?_⟩
        cases t with
        | none => exact Or.inl rfl
        | some t => exact Or.inr ⟨by simp, by simp [StoreSystem.blobs, hdisk]⟩
    | attached hrun hfits =>
        obtain ⟨-, -, -, hblobs, -, stop, rfl, -⟩ := attachFs_cases hrun (Or.inl rfl)
        simp [StoreSystem.blobs, rootOnto, DataDir.only_update, blobFiles, hblobs]
    | attachCrashed hrun hfits =>
        obtain ⟨-, -, -, -, -, stop, rfl, -⟩ := attachFs_cases hrun (Or.inr rfl)
        simp [StoreSystem.blobs, rootOnto, DataDir.only_update, blobFiles]
  opening := by
    rintro ⟨p, d⟩ ⟨p', d'⟩ t'' hd hs
    obtain rfl : d = d' := hd
    cases hs with
    | opened ho => exact .opened ho

/-- **A run of the process is a run of its turn store.** -/
theorem turnRun {z : Zstd} {C : StoreSystem → PartEvent → Prop}
    {D : TurnSystem → TurnEvent → Prop} {es : List PartEvent} {m : StoreSystem}
    (hopen : ∀ t, D t .opened) (hcall : ∀ m e, C m (.call e) → D m.turns e)
    (h : Run (Guarded C (PartStep z)) StoreSystem.initial es m) :
    ∃ t, Run (Guarded D TurnStep) TurnSystem.initial (turnEvents es) t ∧
      t.disk = m.turns.disk ∧ (m.proc ≠ none → t = m.turns) := by
  have hinit : StoreSystem.initial.turns = TurnSystem.initial := by
    simp [StoreSystem.turns, StoreSystem.initial, TurnSystem.initial, DataDir.only_empty]
  rw [← hinit]
  refine (isPart_turns z).run hopen ?_ h
  intro m e f hC he
  cases e with
  | opened => cases he; exact hopen _
  | call e => cases he; exact hcall m _ hC
  | put | attached | attachCrashed => simp [PartEvent.turn?] at he

/-- **A run of the process is a run of its blob store.** -/
theorem blobRun {z : Zstd} {C : StoreSystem → PartEvent → Prop}
    {D : BlobSystem → BlobEvent → Prop} {es : List PartEvent} {m : StoreSystem}
    (hopen : ∀ b, D b .opened) (hput : ∀ m e, C m (.put e) → D m.blobs e)
    (h : Run (Guarded C (PartStep z)) StoreSystem.initial es m) :
    ∃ b, Run (Guarded D (BlobStep z)) BlobSystem.initial (blobEvents es) b ∧
      b.disk = m.blobs.disk ∧ (m.proc ≠ none → b = m.blobs) := by
  have hinit : StoreSystem.initial.blobs = BlobSystem.initial := by
    simp [StoreSystem.blobs, StoreSystem.initial, BlobSystem.initial, DataDir.only_empty]
  rw [← hinit]
  refine (isPart_blobs z).run hopen ?_ h
  intro m e f hC he
  cases e with
  | opened => cases he; exact hopen _
  | put e => cases he; exact hput m _ hC
  | call | attached | attachCrashed => simp [PartEvent.blob?] at he

/-! ### Computed steps -/

/-- What makes the system step. -/
inductive PartInput where
  | opening
  | put (i : BlobInput)
  | call (i : TurnInput)
  | attaching (turnId : UInt64) (fsRootHash : Hash)

/-- The step of the system on an input, if there is one. -/
def StoreSystem.execPart (z : Zstd) (m : StoreSystem) :
    PartInput → Option (PartEvent × StoreSystem)
  | .opening =>
      match Stores.openDir m.disk with
      | .error _ => none
      | .ok (s, d') => some (.opened, ⟨some s, d'⟩)
  | .put i => do
      let s ← m.proc
      match BlobSystem.exec z ⟨some s.blobStore, m.disk⟩ i with
      | none | some (.opened, _) => none
      | some (e, b) =>
          some (.put e, ⟨b.proc.map fun blobStore => { s with blobStore }, b.disk⟩)
  | .call i => do
      let s ← m.proc
      match TurnSystem.exec ⟨some s.turnStore, m.disk⟩ i with
      | none | some (.opened, _) => none
      | some (e, t) =>
          some (.call e, ⟨t.proc.map fun turnStore => { s with turnStore }, t.disk⟩)
  | .attaching turnId fsRootHash => do
      let s ← m.proc
      match runCall (Stores.attachFs turnId fsRootHash) s m.disk none with
      | (.error _, _, _) => none
      | (.ok (), s', d') =>
          if DataDir.Fits d' then some (.attached turnId fsRootHash, ⟨some s', d'⟩) else none

/-- A computed step is a step. -/
theorem StoreSystem.partStep_of_exec (z : Zstd) (m : StoreSystem) (i : PartInput)
    (e : PartEvent) (m' : StoreSystem) (h : m.execPart z i = some (e, m')) :
    PartStep z m e m' := by
  obtain ⟨proc, disk⟩ := m
  cases i with
  | opening =>
      simp only [StoreSystem.execPart] at h
      split at h
      · exact absurd h (by simp)
      next ho =>
      obtain ⟨rfl, rfl⟩ := Prod.mk.inj (Option.some.inj h)
      exact .opened ho
  | put i =>
      obtain ⟨s, rfl, h⟩ := Option.bind_eq_some_iff.mp h
      split at h
      · exact absurd h (by simp)
      · exact absurd h (by simp)
      next e b hne hexec =>
      obtain ⟨rfl, rfl⟩ := Prod.mk.inj (Option.some.inj h)
      exact .put hne (BlobSystem.step_of_exec z _ _ _ _ hexec)
  | call i =>
      obtain ⟨s, rfl, h⟩ := Option.bind_eq_some_iff.mp h
      split at h
      · exact absurd h (by simp)
      · exact absurd h (by simp)
      next e t hne hexec =>
      obtain ⟨rfl, rfl⟩ := Prod.mk.inj (Option.some.inj h)
      exact .call hne (TurnSystem.step_of_exec _ _ _ _ hexec)
  | attaching turnId fsRootHash =>
      obtain ⟨s, rfl, h⟩ := Option.bind_eq_some_iff.mp h
      split at h
      · exact absurd h (by simp)
      next hrun =>
      split at h
      next hfit =>
        obtain ⟨rfl, rfl⟩ := Prod.mk.inj (Option.some.inj h)
        exact .attached hrun hfit
      · exact absurd h (by simp)

end Cxdb
