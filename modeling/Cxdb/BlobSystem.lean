import Cxdb.BlobFiles
import Cxdb.Transition

/-!
# Runs of the Blob Store

The blob store as a system of a process and the data directory, with the same kinds of
events as the turn store: puts that return, puts that fail, crashes and reopenings. A put
that returns has either found the blob or stored it.

## Main results

* `BlobStep.cases`: what a step can do.
* `BlobKept.step`: the blobs whose index entry has been written whole stay readable, as
  long as no entry is written behind a torn one.
* `blobs_durable`: crashes lose nothing, since opening truncates the index.
-/

open ByteFormat FaultyDisk RecordLog LastWrite Transition

namespace Cxdb

/-- A process, if one is running, and the data directory. -/
structure BlobSystem where
  proc : Option BlobStore
  disk : DataDir

/-- No process has opened the empty directory yet. -/
def BlobSystem.initial : BlobSystem := ⟨none, DataDir.empty⟩

inductive BlobEvent where
  | opened
  | found (hash : Hash) (raw : Bytes)
  | stored (hash : Hash) (raw : Bytes)
  | failed (hash : Hash) (raw : Bytes) (f : Fault DataFile)
  | crashed (hash : Hash) (raw : Bytes) (f : Fault DataFile)

/-- The steps of the system. -/
inductive BlobStep (z : Zstd) : BlobSystem → BlobEvent → BlobSystem → Prop
  | opened {p : Option BlobStore} {d d' : DataDir} {s : BlobStore} :
      BlobStore.openDir d = .ok (s, d') → BlobStep z ⟨p, d⟩ .opened ⟨some s, d'⟩
  | found {hash : Hash} {raw : Bytes} {entry : BlobIndexEntry} {s s' : BlobStore}
      {d d' : DataDir} :
      hash ∈ s.index → runCall (putIfAbsent z hash raw) s d none = (.ok entry, s', d') →
      BlobStep z ⟨some s, d⟩ (.found hash raw) ⟨some s', d'⟩
  | stored {hash : Hash} {raw : Bytes} {entry : BlobIndexEntry} {s s' : BlobStore}
      {d d' : DataDir} :
      hash ∉ s.index → runCall (putIfAbsent z hash raw) s d none = (.ok entry, s', d') →
      DataDir.Fits d' → BlobStep z ⟨some s, d⟩ (.stored hash raw) ⟨some s', d'⟩
  | failed {hash : Hash} {raw : Bytes} {f : Fault DataFile} {e : StoreError}
      {s s' : BlobStore} {d d' : DataDir} :
      runCall (putIfAbsent z hash raw) s d (some f) = (.error e, s', d') →
      DataDir.Fits d' → BlobStep z ⟨some s, d⟩ (.failed hash raw f) ⟨some s', d'⟩
  | crashed {hash : Hash} {raw : Bytes} {f : Fault DataFile} {e : StoreError}
      {s s' : BlobStore} {d d' : DataDir} :
      runCall (putIfAbsent z hash raw) s d (some f) = (.error e, s', d') →
      DataDir.Fits d' → BlobStep z ⟨some s, d⟩ (.crashed hash raw f) ⟨none, d'⟩

/-! ### What an event does -/

/-- What a put writes, and where it stops. -/
def BlobEvent.write : BlobEvent → Option ((Hash × Bytes) × Option (Fault DataFile))
  | .stored hash raw => some ((hash, raw), none)
  | .failed hash raw f | .crashed hash raw f => some ((hash, raw), some f)
  | .opened | .found _ _ => none

/-- A process is gone after a crash, and goes on otherwise. -/
def BlobEvent.survives : BlobEvent → Bool
  | .crashed _ _ _ => false
  | _ => true

/-- The index after a put of an absent blob that stops at `stop`. -/
def BlobStore.after (z : Zstd) (s : BlobStore) (blob : Hash × Bytes) (offset : ℕ)
    (stop : Option (Fault DataFile)) : BlobStore :=
  match stop with
  | none => ⟨s.index.insert blob.1 (blobEntryAt z blob.2 offset)⟩
  | some _ => s

/-- A put that stops was to store an absent blob. -/
theorem put_error {z : Zstd} {hash : Hash} {raw : Bytes} {f : Fault DataFile}
    {e : StoreError} {s s' : BlobStore} {d d' : DataDir}
    (h : runCall (putIfAbsent z hash raw) s d (some f) = (.error e, s', d')) :
    hash ∉ s.index ∧ s' = s ∧ d' = putOnto z hash raw d (some f) := by
  rw [putIfAbsent_run] at h
  split at h
  · simp at h
  next hnone =>
  by_cases hf : f.file = .blobsPack ∨ f.file = .blobsIdx
  · obtain ⟨-, rfl, rfl⟩ := by simpa [putStop, hf] using h
    exact ⟨Finmap.lookup_eq_none.mp hnone, rfl, rfl⟩
  · simp [putStop, hf] at h

/-- **What a step can do.** It opens the directory, or finds a blob and changes nothing,
or a put of an absent blob writes as far as it gets. -/
theorem BlobStep.cases {z : Zstd} {m m' : BlobSystem} {e : BlobEvent}
    (h : BlobStep z m e m') :
    (e = .opened ∧ ∃ s d', BlobStore.openDir m.disk = .ok (s, d') ∧ m' = ⟨some s, d'⟩) ∨
    (∃ hash raw s, e = .found hash raw ∧ m.proc = some s ∧ hash ∈ s.index ∧ m' = m) ∨
    (∃ blob stop s, e.write = some (blob, stop) ∧ m.proc = some s ∧ blob.1 ∉ s.index ∧
      m'.disk = putOnto z blob.1 blob.2 m.disk stop ∧ m'.disk.Fits ∧
      m'.proc = if e.survives then some (s.after z blob (m.disk .blobsPack).length stop)
        else none) := by
  cases h with
  | opened h => exact Or.inl ⟨rfl, _, _, h, rfl⟩
  | @found hash raw entry s s' d d' hmem h =>
      rw [putIfAbsent_run] at h
      obtain ⟨entry', he⟩ := Finmap.mem_iff.mp hmem
      rw [he] at h
      obtain ⟨-, rfl, rfl⟩ := by simpa using h
      exact Or.inr (Or.inl ⟨hash, raw, _, rfl, rfl, hmem, rfl⟩)
  | @stored hash raw entry s s' d d' hmem h hfits =>
      rw [putIfAbsent_run, Finmap.lookup_eq_none.mpr hmem] at h
      obtain ⟨-, rfl, rfl⟩ := by simpa [putStop] using h
      exact Or.inr (Or.inr ⟨(hash, raw), none, s, rfl, rfl, hmem, rfl, hfits, rfl⟩)
  | @failed hash raw f e s s' d d' h hfits =>
      obtain ⟨hmem, rfl, rfl⟩ := put_error h
      exact Or.inr (Or.inr ⟨(hash, raw), some f, _, rfl, rfl, hmem, rfl, hfits, rfl⟩)
  | @crashed hash raw f e s s' d d' h hfits =>
      obtain ⟨hmem, rfl, rfl⟩ := put_error h
      exact Or.inr (Or.inr ⟨(hash, raw), some f, _, rfl, rfl, hmem, rfl, hfits, rfl⟩)

/-! ### The blobs of a run -/

/-- The blob whose index entry an event has written whole. -/
def BlobEvent.saved (e : BlobEvent) : List (Hash × Bytes) :=
  match e.write with
  | none => []
  | some (blob, stop) => if whole stop .blobsIdx 52 then [blob] else []

/-- The blobs a run has stored: those whose index entry has been written whole. -/
def storedBlobs (es : List BlobEvent) : List (Hash × Bytes) := es.flatMap BlobEvent.saved

theorem storedBlobs_concat (es : List BlobEvent) (e : BlobEvent) :
    storedBlobs (es ++ [e]) = storedBlobs es ++ e.saved := by
  simp [storedBlobs]

/-- An index entry and the blob it was written for. -/
structure BlobLocation where
  hash : Hash
  entry : BlobIndexEntry
  raw : Bytes

/-- The entry in the index. -/
def BlobLocation.indexed (l : BlobLocation) : Hash × BlobIndexEntry := (l.hash, l.entry)

/-- The blob. -/
def BlobLocation.blob (l : BlobLocation) : Hash × Bytes := (l.hash, l.raw)

/-! ### Conditions on a step -/

/-- The event puts no byte into the index behind a torn entry. -/
def IdxAligned (z : Zstd) (m : BlobSystem) (e : BlobEvent) : Prop :=
  ∀ p ∈ e.write, written p.2 .blobsIdx
      (putBytes z p.1.1 p.1.2 (m.disk .blobsPack).length .blobsIdx) ≠ [] →
    blobsIdxFraming.unread (m.disk .blobsIdx) = []

instance (z : Zstd) (m : BlobSystem) (e : BlobEvent) : Decidable (IdxAligned z m e) :=
  inferInstanceAs (Decidable (∀ p ∈ e.write, _))

/-- The bytes that go into the pack fit the length field of their record. -/
def BlobEvent.StoredFits (z : Zstd) (e : BlobEvent) : Prop :=
  ∀ p ∈ e.write, (storedForm z p.1.2).2.length < 2 ^ 32

instance (z : Zstd) (e : BlobEvent) : Decidable (e.StoredFits z) :=
  inferInstanceAs (Decidable (∀ p ∈ e.write, _))

/-- The raw bytes fit the length field of their record. -/
def BlobEvent.Short (e : BlobEvent) : Prop := ∀ p ∈ e.write, p.1.2.length < 2 ^ 32

instance (e : BlobEvent) : Decidable e.Short :=
  inferInstanceAs (Decidable (∀ p ∈ e.write, _))

/-- What is stored is no longer than the raw bytes. -/
theorem BlobEvent.Short.storedFits {e : BlobEvent} (h : e.Short) (z : Zstd) :
    e.StoredFits z :=
  fun p hp => (length_storedForm_le z p.1.2).trans_lt (h p hp)

/-! ### The invariant -/

/-- The index file holds an entry for each stored blob, each with its record in the pack,
and what is in memory or was found there has been stored. -/
structure BlobKept (z : Zstd) (es : List BlobEvent) (m : BlobSystem) : Prop where
  located : ∃ (ls : List BlobLocation) (tail : Bytes),
    blobsIdxFraming.Layout (m.disk .blobsIdx) (ls.map BlobLocation.indexed) tail ∧
      ls.map BlobLocation.blob = storedBlobs es ∧
      ∀ l ∈ ls, Packed z (m.disk .blobsPack) l.indexed l.raw
  live : ∀ s, m.proc = some s → ∀ hash ∈ s.index, hash ∈ (storedBlobs es).map Prod.fst
  acked : ∀ hash raw, .found hash raw ∈ es ∨ .stored hash raw ∈ es →
    hash ∈ (storedBlobs es).map Prod.fst

theorem BlobKept.initial {z : Zstd} : BlobKept z [] BlobSystem.initial where
  located := ⟨[], [], Framing.layout_nil, rfl, by simp⟩
  live := by simp [BlobSystem.initial]
  acked := by simp

/-- What a put makes of the index file. -/
theorem layout_blobsIdx_put {z : Zstd} (blob : Hash × Bytes) {bs tail : Bytes}
    {entries : List (Hash × BlobIndexEntry)} (offset : ℕ) (stop : Option (Fault DataFile))
    (h : blobsIdxFraming.Layout bs entries tail)
    (htail : written stop .blobsIdx (putBytes z blob.1 blob.2 offset .blobsIdx) ≠ [] →
      tail = []) :
    ∃ tail', blobsIdxFraming.Layout
      (bs ++ written stop .blobsIdx (putBytes z blob.1 blob.2 offset .blobsIdx))
      (entries ++ if whole stop .blobsIdx 52 then [(blob.1, blobEntryAt z blob.2 offset)]
        else []) tail' ∧ (stop = none → tail = [] → tail' = []) := by
  have h' := layout_written .blobsIdx stop (a := (blob.1, blobEntryAt z blob.2 offset)) h
    trivial htail
  simp only [blobsIdxFraming_enc, length_encodeBlobIndexEntry] at h'
  refine ⟨_, h', ?_⟩
  rintro rfl rfl
  simp [whole]

/-- The location of the blob a put has stored. -/
theorem packed_put {z : Zstd} {blob : Hash × Bytes} {m m' : BlobSystem}
    {stop : Option (Fault DataFile)} (hshort : (storedForm z blob.2).2.length < 2 ^ 32)
    (hdisk : m'.disk = putOnto z blob.1 blob.2 m.disk stop) (hfits : m'.disk.Fits)
    (hwhole : whole stop .blobsIdx 52 = true) :
    Packed z (m'.disk .blobsPack)
      (blob.1, blobEntryAt z blob.2 (m.disk .blobsPack).length) blob.2 := by
  -- The record is written before the entry, so it is whole too.
  have hrecord : m'.disk .blobsPack = m.disk .blobsPack ++ blobRecord z blob.1 blob.2 := by
    rw [hdisk]
    exact congrArg (m.disk .blobsPack ++ ·)
      (written_of_whole (whole_of_rank_lt (by decide) hwhole))
  refine ⟨hshort, m.disk .blobsPack, [], by simpa using hrecord, ?_, rfl⟩
  rw [← hrecord]
  exact hfits .blobsPack

/-- Opening reads back the index. -/
theorem opened_blobs {m : BlobSystem} {s : BlobStore} {d' : DataDir}
    {entries : List (Hash × BlobIndexEntry)} {tail : Bytes}
    (h : blobsIdxFraming.Layout (m.disk .blobsIdx) entries tail)
    (ho : BlobStore.openDir m.disk = .ok (s, d')) :
    s.index = indexMap entries ∧ blobsIdxFraming.Layout (d' .blobsIdx) entries [] ∧
      ∀ file, file ≠ .blobsIdx → d' file = m.disk file := by
  obtain ⟨file, hload, rfl⟩ := BlobStore.openDir_ok ho
  rw [loadIndex_of_layout h] at hload
  simp only [Except.ok.injEq, Prod.mk.injEq] at hload
  obtain ⟨hindex, rfl⟩ := hload
  have hkept := h.kept
  rw [kept_blobsIdx, List.append_nil] at hkept
  exact ⟨hindex.symm, by rw [Function.update_self]; exact hkept,
    fun file hne => Function.update_of_ne hne _ _⟩

theorem mem_indexMap {entries : List (Hash × BlobIndexEntry)} {hash : Hash} :
    hash ∈ indexMap entries ↔ hash ∈ entries.map Prod.fst := by
  rw [indexMap, mem_insertAll_empty, List.mem_map]

/-- The hashes of the index are those of the stored blobs. -/
theorem map_fst_indexed {ls : List BlobLocation} {blobs : List (Hash × Bytes)}
    (h : ls.map BlobLocation.blob = blobs) :
    (ls.map BlobLocation.indexed).map Prod.fst = blobs.map Prod.fst := by
  rw [← h, List.map_map, List.map_map]
  rfl

/-- **Stored blobs stay.** -/
theorem BlobKept.step {z : Zstd} {es : List BlobEvent} {m m' : BlobSystem} {e : BlobEvent}
    (h : BlobKept z es m) (hs : BlobStep z m e m') (hal : IdxAligned z m e)
    (hshort : e.StoredFits z) : BlobKept z (es ++ [e]) m' := by
  obtain ⟨ls, tail, hlay, hblobs, hpacked⟩ := h.located
  rcases hs.cases with ⟨rfl, s, d', ho, rfl⟩ | ⟨hash, raw, s, rfl, hproc, hmem, rfl⟩ |
    ⟨blob, stop, s, hw, hproc, habsent, hdisk, hfits, hproc'⟩
  · have hsaved : storedBlobs (es ++ [.opened]) = storedBlobs es := by
      rw [storedBlobs_concat]
      exact List.append_nil _
    obtain ⟨hindex, hlay', hframe⟩ := opened_blobs hlay ho
    rw [← hframe .blobsPack (by decide)] at hpacked
    refine ⟨⟨ls, [], hlay', hblobs.trans hsaved.symm, hpacked⟩, ?_, ?_⟩
    · rintro s' hs' hash hmem
      obtain rfl := Option.some.inj hs'
      rwa [hindex, mem_indexMap, map_fst_indexed hblobs, ← hsaved] at hmem
    · intro hash raw hacked
      rw [hsaved]
      exact h.acked hash raw (by simpa using hacked)
  · have hsaved : storedBlobs (es ++ [.found hash raw]) = storedBlobs es := by
      rw [storedBlobs_concat]
      exact List.append_nil _
    refine ⟨⟨ls, tail, hlay, hblobs.trans hsaved.symm, hpacked⟩, hsaved ▸ h.live, ?_⟩
    intro hash' raw' hacked
    rw [hsaved]
    rcases hacked with hacked | hacked
    · rcases List.mem_append.mp hacked with hacked | hacked
      · exact h.acked hash' raw' (Or.inl hacked)
      · obtain ⟨rfl, -⟩ := by simpa using hacked
        exact h.live s hproc _ hmem
    · exact h.acked hash' raw' (Or.inr (by simpa using hacked))
  · have hsaved : storedBlobs (es ++ [e]) =
        storedBlobs es ++ if whole stop .blobsIdx 52 then [blob] else [] := by
      rw [storedBlobs_concat]
      simp [BlobEvent.saved, hw]
    have hpack : ∃ more, m'.disk .blobsPack = m.disk .blobsPack ++ more := by
      rw [hdisk]
      exact ⟨_, rfl⟩
    obtain ⟨more, hmore⟩ := hpack
    obtain ⟨tail', hlay', -⟩ := layout_blobsIdx_put blob (m.disk .blobsPack).length stop hlay
      fun hne => hlay.unread ▸ hal (blob, stop) hw hne
    refine ⟨?_, ?_, ?_⟩
    · refine ⟨ls ++ if whole stop .blobsIdx 52 then
          [⟨blob.1, blobEntryAt z blob.2 (m.disk .blobsPack).length, blob.2⟩] else [],
        tail', ?_, ?_, ?_⟩
      · rw [hdisk]
        refine (congrArg (blobsIdxFraming.Layout _ · tail') ?_).mp hlay'
        rw [List.map_append]
        split <;> rfl
      · rw [hsaved, List.map_append, hblobs]
        split <;> rfl
      · intro l hl
        rcases List.mem_append.mp hl with hl | hl
        · rw [hmore]
          exact (hpacked l hl).append more
        · simp only [List.mem_ite_nil_right, List.mem_singleton] at hl
          obtain ⟨hwhole, rfl⟩ := hl
          exact packed_put (hshort (blob, stop) hw) hdisk hfits hwhole
    · intro s' hs' hash hmem
      rw [hsaved, List.map_append]
      rw [hproc'] at hs'
      split at hs'
      case isFalse => exact absurd hs' (by simp)
      obtain rfl := Option.some.inj hs'
      cases stop with
      | some f => exact List.mem_append_left _ (h.live s hproc hash hmem)
      | none =>
          rcases (Finmap.mem_insert).mp hmem with rfl | hmem
          · exact List.mem_append_right _ (by simp [whole])
          · exact List.mem_append_left _ (h.live s hproc hash hmem)
    · intro hash raw hacked
      rw [hsaved, List.map_append]
      rcases hacked with hacked | hacked <;> rcases List.mem_append.mp hacked with hacked | hacked
      · exact List.mem_append_left _ (h.acked hash raw (Or.inl hacked))
      · obtain rfl := List.mem_singleton.mp hacked
        simp [BlobEvent.write] at hw
      · exact List.mem_append_left _ (h.acked hash raw (Or.inr hacked))
      · obtain rfl := List.mem_singleton.mp hacked
        obtain ⟨rfl, rfl⟩ := by simpa [BlobEvent.write] using hw
        exact List.mem_append_right _ (by simp [whole])

/-! ### What a store shows -/

/-- The store gives back the bytes that were last stored under each hash, and knows no
other hashes. -/
structure ShowsBlobs (z : Zstd) (s : BlobStore) (pack : Bytes) (es : List BlobEvent) :
    Prop where
  present : ∀ pre hash raw post, storedBlobs es = pre ++ (hash, raw) :: post →
    (∀ p ∈ post, p.1 ≠ hash) →
    s.contains hash = true ∧ s.get z pack hash = .ok raw ∧
      s.rawLen hash = some (UInt32.ofNat raw.length)
  absent : ∀ hash, hash ∉ (storedBlobs es).map Prod.fst →
    s.contains hash = false ∧ s.get z pack hash = .error (.notFound "blob") ∧
      s.rawLen hash = none

/-- A store with the index of the file shows what the run has stored. -/
theorem showsBlobs_of_index {z : Zstd} (hz : z.Lossless) {es : List BlobEvent}
    {s : BlobStore} {pack : Bytes} {ls : List BlobLocation}
    (hblobs : ls.map BlobLocation.blob = storedBlobs es)
    (hpacked : ∀ l ∈ ls, Packed z pack l.indexed l.raw)
    (hindex : s.index = indexMap (ls.map BlobLocation.indexed)) :
    ShowsBlobs z s pack es := by
  constructor
  · intro pre hash raw post hsplit hlast
    rw [hsplit] at hblobs
    obtain ⟨ls₁, ls₂, rfl, -, hls₂⟩ := List.map_eq_append_iff.mp hblobs
    obtain ⟨l, ls₃, rfl, hl, hls₃⟩ := List.map_eq_cons_iff.mp hls₂
    obtain ⟨rfl, rfl⟩ := Prod.mk.inj hl
    have hlookup : s.index.lookup l.hash = some l.entry := by
      rw [hindex, List.map_append, List.map_cons]
      refine lookup_insertAll_of_last rfl ?_
      intro c hc
      obtain ⟨l', hl', rfl⟩ := List.mem_map.mp hc
      exact hlast l'.blob (hls₃ ▸ List.mem_map_of_mem hl')
    have hpack := hpacked l (by simp)
    obtain ⟨pre', -, -, -, hentry⟩ := hpack.at_offset
    refine ⟨by simpa [BlobStore.contains] using Finmap.mem_of_lookup_eq_some hlookup,
      get_of_packed hz hlookup hpack, ?_⟩
    rw [BlobStore.rawLen, hlookup, show l.entry = blobEntryAt z l.raw pre'.length from hentry]
    rfl
  · intro hash habsent
    have hmem : hash ∉ s.index := by
      rwa [hindex, mem_indexMap, map_fst_indexed hblobs]
    have hnone := Finmap.lookup_eq_none.mpr hmem
    exact ⟨by simpa [BlobStore.contains] using hmem, by simp [BlobStore.get, hnone],
      by simp [BlobStore.rawLen, hnone]⟩

/-- **Opening shows what the run has stored.** -/
theorem BlobKept.shows {z : Zstd} (hz : z.Lossless) {es : List BlobEvent} {m : BlobSystem}
    (h : BlobKept z es m) :
    ∃ s d', BlobStore.openDir m.disk = .ok (s, d') ∧ ShowsBlobs z s (d' .blobsPack) es ∧
      ∀ file, file ≠ .blobsIdx → d' file = m.disk file := by
  obtain ⟨ls, tail, hlay, hblobs, hpacked⟩ := h.located
  have ho : BlobStore.openDir m.disk = .ok (⟨indexMap (ls.map BlobLocation.indexed)⟩,
      Function.update m.disk .blobsIdx
        ((ls.map BlobLocation.indexed).flatMap encodeBlobIndexEntry)) := by
    simp [BlobStore.openDir, loadIndex_of_layout hlay, bind, Except.bind, pure, Except.pure]
  obtain ⟨hindex, -, hframe⟩ := opened_blobs hlay ho
  refine ⟨_, _, ho, showsBlobs_of_index hz hblobs ?_ rfl, hframe⟩
  rw [hframe .blobsPack (by decide)]
  exact hpacked

/-! ### Computed steps -/

/-- What makes the system step. -/
inductive BlobInput where
  | opening
  | put (hash : Hash) (raw : Bytes)
  | failing (hash : Hash) (raw : Bytes) (f : Fault DataFile)
  | crashing (hash : Hash) (raw : Bytes) (f : Fault DataFile)

/-- The step of the system on an input, if there is one. -/
def BlobSystem.exec (z : Zstd) (m : BlobSystem) : BlobInput → Option (BlobEvent × BlobSystem)
  | .opening =>
      match BlobStore.openDir m.disk with
      | .error _ => none
      | .ok (s, d') => some (.opened, ⟨some s, d'⟩)
  | .put hash raw => do
      let s ← m.proc
      match runCall (putIfAbsent z hash raw) s m.disk none with
      | (.error _, _, _) => none
      | (.ok _, s', d') =>
          if hash ∈ s.index then some (.found hash raw, ⟨some s', d'⟩)
          else if DataDir.Fits d' then some (.stored hash raw, ⟨some s', d'⟩) else none
  | .failing hash raw f => do
      let s ← m.proc
      match runCall (putIfAbsent z hash raw) s m.disk (some f) with
      | (.ok _, _, _) => none
      | (.error _, s', d') =>
          if DataDir.Fits d' then some (.failed hash raw f, ⟨some s', d'⟩) else none
  | .crashing hash raw f => do
      let s ← m.proc
      match runCall (putIfAbsent z hash raw) s m.disk (some f) with
      | (.ok _, _, _) => none
      | (.error _, _, d') =>
          if DataDir.Fits d' then some (.crashed hash raw f, ⟨none, d'⟩) else none

/-- A computed step is a step. -/
theorem BlobSystem.step_of_exec (z : Zstd) (m : BlobSystem) (i : BlobInput) (e : BlobEvent)
    (m' : BlobSystem) (h : m.exec z i = some (e, m')) : BlobStep z m e m' := by
  obtain ⟨proc, disk⟩ := m
  cases i with
  | opening =>
      simp only [BlobSystem.exec] at h
      split at h
      · exact absurd h (by simp)
      next ho =>
      obtain ⟨rfl, rfl⟩ := Prod.mk.inj (Option.some.inj h)
      exact .opened ho
  | put hash raw =>
      obtain ⟨s, rfl, h⟩ := Option.bind_eq_some_iff.mp h
      split at h
      · exact absurd h (by simp)
      next hrun =>
      split at h
      next hmem =>
        obtain ⟨rfl, rfl⟩ := Prod.mk.inj (Option.some.inj h)
        exact .found hmem hrun
      next hmem =>
        split at h
        next hfit =>
          obtain ⟨rfl, rfl⟩ := Prod.mk.inj (Option.some.inj h)
          exact .stored hmem hrun hfit
        · exact absurd h (by simp)
  | failing hash raw f =>
      obtain ⟨s, rfl, h⟩ := Option.bind_eq_some_iff.mp h
      split at h
      · exact absurd h (by simp)
      next hrun =>
      split at h
      next hfit =>
        obtain ⟨rfl, rfl⟩ := Prod.mk.inj (Option.some.inj h)
        exact .failed hrun hfit
      · exact absurd h (by simp)
  | crashing hash raw f =>
      obtain ⟨s, rfl, h⟩ := Option.bind_eq_some_iff.mp h
      split at h
      · exact absurd h (by simp)
      next hrun =>
      split at h
      next hfit =>
        obtain ⟨rfl, rfl⟩ := Prod.mk.inj (Option.some.inj h)
        exact .crashed hrun hfit
      · exact absurd h (by simp)

/-- Zstandard frames of one raw block, which is what the encoder makes of a short input
that does not compress. -/
def rawBlockZstd : Zstd where
  encodeAll raw :=
    some ([0x28, 0xB5, 0x2F, 0xFD, 0x00, 0x58] ++ (leBytes 3 (8 * raw.length + 1) ++ raw))
  decodeAll bs :=
    if bs.take 6 = [0x28, 0xB5, 0x2F, 0xFD, 0x00, 0x58] then .ok (bs.drop 9)
    else .error "Unknown frame descriptor"

theorem rawBlockZstd_lossless : rawBlockZstd.Lossless := by
  intro raw compressed h
  obtain rfl := Option.some.inj h
  have hlen : (leBytes 3 (8 * raw.length + 1)).length = 3 := length_leBytes _ _
  simp [rawBlockZstd, hlen]

/-! ### Runs without failures -/

/-- No put fails while the process goes on. -/
def BlobEvent.NoFailure : BlobEvent → Prop
  | .failed _ _ _ => False
  | .opened | .found _ _ | .stored _ _ | .crashed _ _ _ => True

instance : DecidablePred BlobEvent.NoFailure
  | .failed _ _ _ => inferInstanceAs (Decidable False)
  | .opened | .found _ _ | .stored _ _ | .crashed _ _ _ => inferInstanceAs (Decidable True)

/-- The index in memory is what opening the file again would give, and no blob has been
stored twice. -/
structure BlobMirror (z : Zstd) (es : List BlobEvent) (m : BlobSystem) : Prop where
  kept : BlobKept z es m
  nodup : ((storedBlobs es).map Prod.fst).Nodup
  live : ∀ s, m.proc = some s →
    loadIndex (m.disk .blobsIdx) = .ok (s.index, m.disk .blobsIdx)

theorem BlobMirror.initial {z : Zstd} : BlobMirror z [] BlobSystem.initial where
  kept := BlobKept.initial
  nodup := List.nodup_nil
  live := by simp [BlobSystem.initial]

/-- An aligned index file loads, and opening leaves it as it is. -/
theorem loadIndex_of_aligned {file : Bytes} {entries : List (Hash × BlobIndexEntry)}
    (h : blobsIdxFraming.Layout file entries []) :
    loadIndex file = .ok (indexMap entries, file) := by
  have hfile := h.eq
  rw [List.append_nil] at hfile
  rw [loadIndex_of_layout h]
  exact congrArg (fun f => Except.ok (indexMap entries, f)) hfile.symm

/-- A file that loading leaves as it is has no torn entry. -/
theorem tail_eq_nil_of_loadIndex {file tail : Bytes} {index : HashMap Hash BlobIndexEntry}
    {entries : List (Hash × BlobIndexEntry)} (h : blobsIdxFraming.Layout file entries tail)
    (hload : loadIndex file = .ok (index, file)) : tail = [] ∧ index = indexMap entries := by
  rw [loadIndex_of_layout h] at hload
  simp only [Except.ok.injEq, Prod.mk.injEq] at hload
  exact ⟨List.self_eq_append_right.mp (hload.2.trans h.eq), hload.1.symm⟩

/-- A process in step writes its index entries to an aligned file. -/
theorem BlobMirror.idxAligned {z : Zstd} {es : List BlobEvent} {m m' : BlobSystem}
    {e : BlobEvent} (h : BlobMirror z es m) (hs : BlobStep z m e m') : IdxAligned z m e := by
  intro p hw _
  rcases hs.cases with ⟨rfl, -⟩ | ⟨_, _, _, rfl, -⟩ | ⟨_, _, s, -, hproc, -⟩
  · simp [BlobEvent.write] at hw
  · simp [BlobEvent.write] at hw
  · obtain ⟨ls, tail, hlay, -⟩ := h.kept.located
    exact hlay.unread.trans (tail_eq_nil_of_loadIndex hlay (h.live s hproc)).1

/-- **Memory stays in step with the index file.** -/
theorem BlobMirror.step {z : Zstd} {es : List BlobEvent} {m m' : BlobSystem} {e : BlobEvent}
    (h : BlobMirror z es m) (hs : BlobStep z m e m') (hno : e.NoFailure)
    (hshort : e.StoredFits z) : BlobMirror z (es ++ [e]) m' := by
  have hkept := h.kept.step hs (h.idxAligned hs) hshort
  obtain ⟨ls, tail, hlay, hblobs, -⟩ := h.kept.located
  rcases hs.cases with ⟨rfl, s, d', ho, rfl⟩ | ⟨hash, raw, s, rfl, hproc, hmem, rfl⟩ |
    ⟨blob, stop, s, hw, hproc, habsent, hdisk, -, hproc'⟩
  · refine ⟨hkept, by simpa [storedBlobs_concat, BlobEvent.saved, BlobEvent.write] using
      h.nodup, ?_⟩
    rintro s' hs'
    obtain rfl := Option.some.inj hs'
    obtain ⟨hindex, hlay', -⟩ := opened_blobs hlay ho
    rw [hindex]
    exact loadIndex_of_aligned hlay'
  · exact ⟨hkept, by simpa [storedBlobs_concat, BlobEvent.saved, BlobEvent.write] using
      h.nodup, h.live⟩
  · obtain ⟨rfl, hindex⟩ := tail_eq_nil_of_loadIndex hlay (h.live s hproc)
    refine ⟨hkept, ?_, ?_⟩
    · rw [hindex, mem_indexMap, map_fst_indexed hblobs] at habsent
      rw [storedBlobs_concat, List.map_append, List.nodup_append]
      refine ⟨h.nodup, ?_, ?_⟩
      · simp only [BlobEvent.saved, hw]
        split <;> simp
      · rintro a ha b hb rfl
        simp only [BlobEvent.saved, hw, List.mem_map] at hb
        obtain ⟨p, hp, rfl⟩ := hb
        simp only [List.mem_ite_nil_right, List.mem_singleton] at hp
        exact habsent (hp.2 ▸ ha)
    · intro s' hs'
      rw [hproc'] at hs'
      cases e with
      | stored hash raw =>
          obtain ⟨rfl, rfl⟩ := by simpa [BlobEvent.write] using hw
          obtain rfl := Option.some.inj hs'
          obtain ⟨tail', hlay', htail'⟩ := layout_blobsIdx_put (z := z) (hash, raw)
            (m.disk .blobsPack).length none hlay fun _ => rfl
          obtain rfl := htail' rfl rfl
          rw [hdisk]
          refine (loadIndex_of_aligned hlay').trans ?_
          rw [show whole none DataFile.blobsIdx 52 = true from rfl, if_pos rfl,
            indexMap_concat, ← hindex]
          rfl
      | failed => exact hno.elim
      | crashed => exact absurd hs' (by simp [BlobEvent.survives])
      | opened | found => simp [BlobEvent.write] at hw

/-- **Durability and content addressing.** In every run of puts of blobs shorter than
`2 ^ 32` bytes, crashes at any byte of a put's writes and reopenings: every acknowledged
hash has been stored, each hash once; in every state reached the directory opens; and the
store opened there, and the running store, give back exactly the bytes that were stored
first under each stored hash, and know no other hash. -/
theorem blobs_durable {z : Zstd} (hz : z.Lossless) {es : List BlobEvent} {m : BlobSystem}
    (h : Run (Guarded (fun _ e => e.NoFailure ∧ e.Short) (BlobStep z)) BlobSystem.initial
      es m) :
    (∀ hash raw, .found hash raw ∈ es ∨ .stored hash raw ∈ es →
      hash ∈ (storedBlobs es).map Prod.fst) ∧
    ((storedBlobs es).map Prod.fst).Nodup ∧
    (∃ s d', BlobStore.openDir m.disk = .ok (s, d') ∧ ShowsBlobs z s (d' .blobsPack) es) ∧
    ∀ s, m.proc = some s → ShowsBlobs z s (m.disk .blobsPack) es := by
  have hmir : BlobMirror z es m := by
    refine h.invariant (I := BlobMirror z) BlobMirror.initial ?_
    intro es m e m' hmir hs
    exact hmir.step hs.2 hs.1.1 (hs.1.2.storedFits z)
  obtain ⟨s, d', ho, hshows, -⟩ := hmir.kept.shows hz
  refine ⟨hmir.kept.acked, hmir.nodup, ⟨s, d', ho, hshows⟩, fun s hs => ?_⟩
  obtain ⟨ls, tail, hlay, hblobs, hpacked⟩ := hmir.kept.located
  exact showsBlobs_of_index hz hblobs hpacked
    (tail_eq_nil_of_loadIndex hlay (hmir.live s hs)).2

/-- A put that crashes in its index entry, a reopening, the same hash with other bytes,
and the same hash once more. -/
def tornIdxInputs : List BlobInput :=
  [.opening, .crashing (List.Vector.replicate 32 1) [1, 2, 3] ⟨.blobsIdx, 40⟩, .opening,
    .put (List.Vector.replicate 32 1) [4, 5], .put (List.Vector.replicate 32 1) [6]]

set_option maxRecDepth 2000 in
/-- `blobs_durable` over a crash. -/
theorem blobs_durable_tornIdxInputs :
    ∃ es m, execAll (fun _ e => e.NoFailure ∧ e.Short) (BlobSystem.exec rawBlockZstd)
        BlobSystem.initial tornIdxInputs = some (es, m) ∧
      storedBlobs es = [(List.Vector.replicate 32 1, [4, 5])] ∧
      ∃ s d', BlobStore.openDir m.disk = .ok (s, d') ∧
        ShowsBlobs rawBlockZstd s (d' .blobsPack) es := by
  obtain ⟨es, m, h, hrun, hstored⟩ := exists_run_of_execAll
    (fun _ e => BlobEvent.NoFailure e ∧ e.Short) (BlobSystem.step_of_exec rawBlockZstd)
    BlobSystem.initial tornIdxInputs
    (fun es _ => storedBlobs es = [(List.Vector.replicate 32 1, [4, 5])])
    (by decide)
  exact ⟨es, m, h, hstored, (blobs_durable rawBlockZstd_lossless hrun).2.2.1⟩

end Cxdb
