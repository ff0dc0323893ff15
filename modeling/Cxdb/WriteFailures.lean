import Cxdb.StoreParts
import Cxdb.TurnInvariant

/-!
# Write Failures of a Running Process

A write that stops, on a full disk say, leaves part of a record at the end of a file while
the process goes on. No store cuts it off: the next call seeks to the end of the file and
writes behind it, and what it writes there is lost at the next opening.

## Main results

* `failures_lose_nothing`: as long as no call writes behind a torn record, everything that
  was acknowledged is there after any number of failures, crashes and reopenings.
* `failed_append_loses_next_turn`: one failed append loses the acknowledged turn after it.
-/

open ByteFormat FaultyDisk RecordLog LastWrite Transition

namespace Cxdb

/-! ### Acknowledged blobs -/

/-- Every acknowledged hash is in the index of every later process, and no blob is stored
under it again. -/
structure AckedBlobs (es : List BlobEvent) (m : BlobSystem) : Prop where
  live : ∀ hash raw, .found hash raw ∈ es ∨ .stored hash raw ∈ es →
    ∀ s, m.proc = some s → hash ∈ s.index
  last : ∀ hash raw, .stored hash raw ∈ es →
    ∃ pre post, storedBlobs es = pre ++ (hash, raw) :: post ∧ ∀ p ∈ post, p.1 ≠ hash

theorem AckedBlobs.initial : AckedBlobs [] BlobSystem.initial :=
  ⟨by simp, by simp⟩

/-- **Acknowledged blobs are not overwritten.** -/
theorem AckedBlobs.step {z : Zstd} {es : List BlobEvent} {m m' : BlobSystem} {e : BlobEvent}
    (h : AckedBlobs es m) (hkept : BlobKept z es m) (hs : BlobStep z m e m') :
    AckedBlobs (es ++ [e]) m' := by
  rcases hs.cases with ⟨rfl, s, d', ho, rfl⟩ | ⟨hash, raw, s, rfl, hproc, hmem, rfl⟩ |
    ⟨blob, stop, s, hw, hproc, habsent, -, -, hproc'⟩
  · refine ⟨?_, by simpa [storedBlobs_concat, BlobEvent.saved, BlobEvent.write] using h.last⟩
    rintro hash raw hacked s' hs'
    obtain rfl := Option.some.inj hs'
    obtain ⟨ls, tail, hlay, hblobs, -⟩ := hkept.located
    rw [(opened_blobs hlay ho).1, mem_indexMap, map_fst_indexed hblobs]
    exact hkept.acked hash raw (by simpa using hacked)
  · refine ⟨?_, by simpa [storedBlobs_concat, BlobEvent.saved, BlobEvent.write] using h.last⟩
    rintro hash' raw' hacked s' hs'
    rw [hproc] at hs'
    obtain rfl := Option.some.inj hs'
    simp only [List.mem_append, List.mem_singleton, BlobEvent.found.injEq, reduceCtorEq,
      or_false] at hacked
    rcases hacked with (hacked | ⟨rfl, -⟩) | hacked
    · exact h.live hash' raw' (Or.inl hacked) s hproc
    · exact hmem
    · exact h.live hash' raw' (Or.inr hacked) s hproc
  · refine ⟨?_, ?_⟩
    · rintro hash raw hacked s' hs'
      rw [hproc'] at hs'
      split at hs'
      case isFalse => exact absurd hs' (by simp)
      obtain rfl := Option.some.inj hs'
      have hkeep : ∀ k ∈ s.index, k ∈ (s.after z blob (m.disk .blobsPack).length stop).index := by
        intro k hk
        cases stop with
        | none => exact Finmap.mem_insert.mpr (Or.inr hk)
        | some f => exact hk
      simp only [List.mem_append, List.mem_singleton] at hacked
      rcases hacked with (hacked | rfl) | (hacked | rfl)
      · exact hkeep _ (h.live hash raw (Or.inl hacked) s hproc)
      · simp [BlobEvent.write] at hw
      · exact hkeep _ (h.live hash raw (Or.inr hacked) s hproc)
      · obtain ⟨rfl, rfl⟩ := by simpa [BlobEvent.write] using hw
        exact Finmap.mem_insert.mpr (Or.inl rfl)
    · intro hash raw hacked
      rw [storedBlobs_concat, show e.saved = if whole stop .blobsIdx 52 then [blob] else [] by
        simp [BlobEvent.saved, hw]]
      rcases List.mem_append.mp hacked with hacked | hacked
      · -- The hash was in the index, and the put was of a blob that was not.
        obtain ⟨pre, post, hsplit, hpost⟩ := h.last hash raw hacked
        have hne : blob.1 ≠ hash := fun e =>
          habsent (e ▸ h.live hash raw (Or.inr hacked) s hproc)
        refine ⟨pre, post ++ if whole stop .blobsIdx 52 then [blob] else [], by simp [hsplit],
          fun p hp => ?_⟩
        rcases List.mem_append.mp hp with hp | hp
        · exact hpost p hp
        · simp only [List.mem_ite_nil_right, List.mem_singleton] at hp
          exact hp.2 ▸ hne
      · obtain rfl := List.mem_singleton.mp hacked
        obtain ⟨rfl, rfl⟩ := by simpa [BlobEvent.write] using hw
        exact ⟨storedBlobs es, [], by simp [whole], by simp⟩

/-- The store gives back the bytes of every put that stored its blob, and for every put
that found its blob some bytes that have been stored under the hash. -/
structure ShowsAckedBlobs (z : Zstd) (s : BlobStore) (pack : Bytes) (es : List BlobEvent) :
    Prop where
  stored : ∀ hash raw, .stored hash raw ∈ es →
    s.contains hash = true ∧ s.get z pack hash = .ok raw ∧
      s.rawLen hash = some (UInt32.ofNat raw.length)
  found : ∀ hash raw, .found hash raw ∈ es → s.contains hash = true ∧
    ∃ raw', (hash, raw') ∈ storedBlobs es ∧ s.get z pack hash = .ok raw'

theorem ShowsBlobs.acked {z : Zstd} {s : BlobStore} {pack : Bytes} {es : List BlobEvent}
    {m : BlobSystem} (h : ShowsBlobs z s pack es) (hkept : BlobKept z es m)
    (hacked : AckedBlobs es m) : ShowsAckedBlobs z s pack es := by
  constructor
  · intro hash raw hs
    obtain ⟨pre, post, hsplit, hpost⟩ := hacked.last hash raw hs
    exact h.present pre hash raw post hsplit hpost
  · intro hash raw hf
    have hmem := hkept.acked hash raw (Or.inl hf)
    obtain ⟨pre, ⟨hash', raw'⟩, post, hsplit, rfl, hpost⟩ :=
      exists_last_of_mem (List.mem_map.mp hmem)
    obtain ⟨hcontains, hget, -⟩ := h.present pre hash' raw' post hsplit hpost
    exact ⟨hcontains, raw', by simp [hsplit], hget⟩

/-! ### Runs with failures -/

/-- The event writes no byte behind a torn record, and what it writes fits its length
fields and counters. -/
def WritesBehindNothing (z : Zstd) (m : StoreSystem) : PartEvent → Prop
  | .put e => IdxAligned z m.blobs e ∧ e.StoredFits z
  | .call e =>
      (Aligned turnsLogFraming .turnsLog m.turns e ∧
        Aligned turnsMetaFraming .turnsMeta m.turns e ∧
        Aligned headsTblFraming .headsTbl m.turns e) ∧ HasRoom m.turns e ∧ e.TypeIdFits
  | .opened | .attached _ _ | .attachCrashed _ _ _ => True

instance (z : Zstd) (m : StoreSystem) : DecidablePred (WritesBehindNothing z m)
  | .put _ => inferInstanceAs (Decidable (_ ∧ _))
  | .call _ => inferInstanceAs (Decidable (_ ∧ _))
  | .opened | .attached _ _ | .attachCrashed _ _ _ => inferInstanceAs (Decidable True)

/-- **Failures lose nothing.** In every run of puts, calls and attachments, with writes
that fail at any byte while the process goes on, crashes and reopenings, in which no call
writes behind a torn record: in every state reached the directory opens, and the stores
opened there show every acknowledged turn, metadata record, head and blob. -/
theorem failures_lose_nothing {z : Zstd} (hz : z.Lossless) {es : List PartEvent}
    {m : StoreSystem}
    (h : Run (Guarded (WritesBehindNothing z) (PartStep z)) StoreSystem.initial es m) :
    ∃ s d', Stores.openDir m.disk = .ok (s, d') ∧ Shows s.turnStore (turnEvents es) ∧
      ShowsBlobs z s.blobStore (d' .blobsPack) (blobEvents es) ∧
      ShowsAckedBlobs z s.blobStore (d' .blobsPack) (blobEvents es) := by
  obtain ⟨t, ht, htdisk, -⟩ := turnRun
    (D := fun t e => (Aligned turnsLogFraming .turnsLog t e ∧
      Aligned turnsMetaFraming .turnsMeta t e ∧ Aligned headsTblFraming .headsTbl t e) ∧
      HasRoom t e ∧ e.TypeIdFits)
    (fun t => by simp [Aligned, HasRoom, TurnEvent.TypeIdFits, TurnEvent.write])
    (fun _ _ hC => hC) h
  obtain ⟨b, hb, hbdisk, -⟩ := blobRun
    (D := fun b e => IdxAligned z b e ∧ e.StoredFits z)
    (fun b => by simp [IdxAligned, BlobEvent.StoredFits, BlobEvent.write])
    (fun _ _ hC => hC) h
  obtain ⟨hlog, hmeta, hheads⟩ : LogKept (journalOf (turnEvents es)) t ∧
      MetaKept (journalOf (turnEvents es)) t ∧ HeadsKept (journalOf (turnEvents es)) t := by
    refine ht.invariant (I := fun es t => LogKept (journalOf es) t ∧
      MetaKept (journalOf es) t ∧ HeadsKept (journalOf es) t)
      ⟨LogKept.initial, MetaKept.initial, HeadsKept.initial⟩ ?_
    rintro es t e t' ⟨hlog, hmeta, hheads⟩ ⟨⟨⟨hl, hm, hh⟩, hroom, hfits⟩, hs⟩
    exact ⟨hlog.step hs hl hroom, hmeta.step hlog hs hm hfits, hheads.step hs hh⟩
  obtain ⟨hblobs, hacked⟩ : BlobKept z (blobEvents es) b ∧ AckedBlobs (blobEvents es) b := by
    refine hb.invariant (I := fun es b => BlobKept z es b ∧ AckedBlobs es b)
      ⟨BlobKept.initial, AckedBlobs.initial⟩ ?_
    rintro es b e b' ⟨hkept, hacked⟩ ⟨⟨hal, hfits⟩, hs⟩
    exact ⟨hkept.step hs hal hfits, hacked.step hkept hs⟩
  obtain ⟨ts, dt, hto, hshows⟩ := shows_of_kept hlog hmeta hheads
  obtain ⟨bs, db, hbo, hshowsB, -⟩ := hblobs.shows hz
  rw [htdisk] at hto
  rw [hbdisk] at hbo
  obtain ⟨s, d', ho, rfl, rfl, hdb, -⟩ := openDir_of_parts hbo hto
  rw [← hdb, DataDir.only_of_mem d' (by decide)] at hshowsB
  exact ⟨s, d', ho, hshows, hshowsB, hshowsB.acked hblobs hacked⟩

/-- A put that fails in the pack and is made again, and an append that fails between log
and metadata before the process is restarted. -/
def failingInputs : List PartInput :=
  [.opening, .call (.call (.createContext 0) 0),
    .put (.failing (List.Vector.replicate 32 1) [1, 2, 3] ⟨.blobsPack, 20⟩),
    .put (.put (List.Vector.replicate 32 1) [1, 2, 3]),
    .call (.failing (plainAppend 1 0) 1 ⟨.turnsIdx, 5⟩), .call (.call (plainAppend 1 0) 2)]

set_option maxRecDepth 4000 in
/-- `failures_lose_nothing` over two failures. -/
theorem failures_lose_nothing_failingInputs :
    ∃ es m, execAll (WritesBehindNothing rawBlockZstd)
        (StoreSystem.execPart rawBlockZstd) StoreSystem.initial failingInputs =
          some (es, m) ∧
      ∃ s d', Stores.openDir m.disk = .ok (s, d') ∧ Shows s.turnStore (turnEvents es) ∧
        ShowsBlobs rawBlockZstd s.blobStore (d' .blobsPack) (blobEvents es) ∧
        ShowsAckedBlobs rawBlockZstd s.blobStore (d' .blobsPack) (blobEvents es) := by
  obtain ⟨es, m, h, hrun, -⟩ := exists_run_of_execAll (WritesBehindNothing rawBlockZstd)
    (StoreSystem.partStep_of_exec rawBlockZstd) StoreSystem.initial failingInputs
    (fun _ _ => True) (by decide +kernel)
  exact ⟨es, m, h, failures_lose_nothing rawBlockZstd_lossless hrun⟩

/-! ### A turn behind a torn record -/

/-- The first append fails after ten bytes of its turn record; the second is
acknowledged. -/
def failedAppendInputs : List PartInput :=
  [.opening, .call (.call (.createContext 0) 0),
    .call (.failing (plainAppend 1 0) 1 ⟨.turnsLog, 10⟩), .call (.call (plainAppend 1 0) 2)]

set_option maxRecDepth 4000 in
/-- **One failed append loses the acknowledged turn after it.** -/
theorem failed_append_loses_next_turn :
    ∃ es m, execAll (fun _ _ => True) (StoreSystem.execPart rawBlockZstd)
        StoreSystem.initial failedAppendInputs = some (es, m) ∧
      Run (PartStep rawBlockZstd) StoreSystem.initial es m ∧
      ¬ ∃ s d', Stores.openDir m.disk = .ok (s, d') ∧
        Shows s.turnStore (turnEvents es) := by
  obtain ⟨es, m, h, hrun, ⟨w, hw, t, ht, hid⟩, hlost⟩ := exists_run_of_execAll
    (fun _ _ => True) (StoreSystem.partStep_of_exec rawBlockZstd) StoreSystem.initial
    failedAppendInputs
    (fun es m => (∃ w ∈ ackedEntries (turnEvents es), ∃ t ∈ w.turn, t.1.turnId = 2) ∧
      ∀ o ∈ (Stores.openDir m.disk).toOption, o.1.turnStore.turns.lookup 2 = none)
    (by decide +kernel)
  refine ⟨es, m, h, hrun.of_guarded, ?_⟩
  rintro ⟨s, d', ho, hshows⟩
  have hturn := (hshows.turns w hw t ht).1
  rw [hid, hlost (s, d') (by simp [ho, Except.toOption])] at hturn
  exact absurd hturn (by simp)

end Cxdb
