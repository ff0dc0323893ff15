import Cxdb.History
import Cxdb.StoreInvariant

/-!
# Readable Histories over Runs with Faults

A page can be returned if its turns have metadata and payloads that can be read. Here this is
shown in every state that the store can reach by calls, writes that fail while the process
goes on, crashes and reopenings, as long as no call writes behind a torn record and what a
call is told to start from has metadata.

## Main results

* `TurnStore.Documented.after`: a call keeps the turns of the running store documented,
  wherever it stops.
* `HistoryKept.step`: so do the files.
* `historyReadable_of_run`: the histories of the running store are readable in every state
  reached.
-/

open ByteFormat FaultyDisk RecordLog LastWrite Transition ParentChain

namespace Cxdb

/-! ### Metadata in memory -/

/-- A call that has taken its id. -/
theorem TurnStore.Documented.takeId {s : TurnStore} (h : s.Documented) (w : Entry) :
    (s.takeId w).Documented := by
  rcases w with ⟨_ | t, head⟩ <;> exact ⟨h.parent, h.head⟩

/-- A turn on top of a documented one comes with its metadata. -/
theorem TurnStore.Documented.addTurn {s : TurnStore} (h : s.Documented) {w : Entry}
    (hparent : ∀ t, w.turn = some t →
      t.1.parentTurnId = 0 ∨ t.1.parentTurnId ∈ s.turnMeta) (offset : ℕ) :
    (s.addTurn w offset).Documented := by
  rcases w with ⟨_ | t, head⟩
  · exact h
  · have hmore : ∀ {k}, k ∈ s.turnMeta → k ∈ s.turnMeta.insert t.1.turnId t.2 :=
      fun hk => Finmap.mem_insert.mpr (Or.inr hk)
    refine ⟨fun k r hr => ?_, fun c hd hhd => (h.head c hd hhd).imp_right hmore⟩
    dsimp only [TurnStore.addTurn] at hr ⊢
    by_cases hk : k = t.1.turnId
    · subst hk
      rw [Finmap.lookup_insert] at hr
      obtain rfl := Option.some.inj hr
      exact (hparent t rfl).imp_right hmore
    · rw [Finmap.lookup_insert_of_ne _ hk] at hr
      exact (h.parent k r hr).imp_right hmore

/-- A head that names a documented turn. -/
theorem TurnStore.Documented.addHead {s : TurnStore} (h : s.Documented) {w : Entry}
    (hhead : w.head.headTurnId = 0 ∨ w.head.headTurnId ∈ s.turnMeta) :
    (s.addHead w).Documented := by
  refine ⟨h.parent, fun c hd hhd => ?_⟩
  dsimp only [TurnStore.addHead] at hhd ⊢
  by_cases hc : c = w.head.contextId
  · subst hc
    rw [Finmap.lookup_insert] at hhd
    obtain rfl := Option.some.inj hhd
    exact hhead
  · rw [Finmap.lookup_insert_of_ne _ hc] at hhd
    exact h.head c hd hhd

/-- The metadata after the turn of an entry has been added. -/
theorem mem_turnMeta_addTurn {s : TurnStore} {w : Entry} {offset : ℕ} {k : UInt64} :
    k ∈ ((s.takeId w).addTurn w offset).turnMeta ↔
      (∃ t, w.turn = some t ∧ t.1.turnId = k) ∨ k ∈ s.turnMeta := by
  rcases w with ⟨_ | t, head⟩
  · simp [TurnStore.addTurn, TurnStore.takeId]
  · simp [TurnStore.addTurn, TurnStore.takeId, Finmap.mem_insert, eq_comm]

/-- **A call keeps the turns documented**, wherever it stops. -/
theorem TurnStore.Documented.after {s : TurnStore} (h : s.Documented) (hlinked : s.Linked)
    {now : UInt64} {c : TurnCall} {w : Entry} (hw : s.entryOf now c = .ok w)
    (hstart : c.start = 0 ∨ c.start ∈ s.turnMeta) (offset : ℕ)
    (stop : Option (Fault DataFile)) : (s.after w offset stop).Documented := by
  obtain ⟨hparent, hhead⟩ := h.entry hlinked hw hstart
  have htaken : ∀ k, k ∈ (s.takeId w).turnMeta ↔ k ∈ s.turnMeta := by
    rcases w with ⟨_ | t, head⟩ <;> exact fun _ => Iff.rfl
  have hadded : ((s.takeId w).addTurn w offset).Documented :=
    (h.takeId w).addTurn (fun t ht => (hparent t ht).imp_right (htaken _).mpr) offset
  cases stop with
  | none =>
      refine hadded.addHead ?_
      rcases hhead with h0 | hold | hnew
      · exact Or.inl h0
      · exact Or.inr (mem_turnMeta_addTurn.mpr (Or.inr hold))
      · exact Or.inr (mem_turnMeta_addTurn.mpr (Or.inl hnew))
  | some f =>
      rw [TurnStore.after]
      split
      · exact hadded
      · exact h.takeId w

/-- The metadata in memory after a call is in the file. -/
theorem mem_turnMeta_after {s : TurnStore} {w : Entry} {offset : ℕ}
    {stop : Option (Fault DataFile)} {k : UInt64} (h : k ∈ (s.after w offset stop).turnMeta) :
    k ∈ s.turnMeta ∨ k ∈ (w.saved stop).metas.map Prod.fst := by
  have hsaved : (stop = none ∨ ∃ f, stop = some f ∧ f.file = .headsTbl) →
      k ∈ ((s.takeId w).addTurn w offset).turnMeta →
        k ∈ s.turnMeta ∨ k ∈ (w.saved stop).metas.map Prod.fst := by
    intro hstop hk
    rcases mem_turnMeta_addTurn.mp hk with ⟨t, ht, rfl⟩ | hk
    · refine Or.inr ?_
      simp only [Entry.saved, ht]
      rw [if_pos]
      · simp
      · rcases hstop with rfl | ⟨f, rfl, hf⟩
        · rfl
        · simp [whole, hf, DataFile.rank]
    · exact Or.inl hk
  cases stop with
  | none => exact hsaved (Or.inl rfl) h
  | some f =>
      rw [TurnStore.after] at h
      split at h
      next hf => exact hsaved (Or.inr ⟨f, rfl, hf⟩) h
      · refine Or.inl ?_
        rcases w with ⟨_ | t, head⟩ <;> exact h

/-! ### Metadata in the files -/

/-- What a call is told to start from has metadata, and the metadata that it writes fits its
length field and stands behind no torn record. -/
def KeepsMeta (m : TurnSystem) (e : TurnEvent) : Prop :=
  Aligned turnsMetaFraming .turnsMeta m e ∧ e.TypeIdFits ∧ StartsDocumented m e

instance (m : TurnSystem) (e : TurnEvent) : Decidable (KeepsMeta m e) :=
  inferInstanceAs (Decidable (_ ∧ _))

/-- The files and the process are documented. -/
structure HistoryKept (es : List TurnEvent) (m : TurnSystem) : Prop where
  metas : MetaKept (journalOf es) m
  documented : Documented (journalOf es)
  live : ∀ s, m.proc = some s →
    s.Documented ∧ ∀ k ∈ s.turnMeta, k ∈ (journalOf es).metas.map Prod.fst

theorem HistoryKept.initial : HistoryKept [] TurnSystem.initial :=
  ⟨MetaKept.initial, Documented.initial, by simp [TurnSystem.initial]⟩

theorem HistoryKept.dies {es : List TurnEvent} {p : Option TurnStore} {d : DataDir}
    (h : HistoryKept es ⟨p, d⟩) : HistoryKept es ⟨none, d⟩ :=
  ⟨⟨h.metas.layout, h.metas.increasing, h.metas.ofTurn⟩, h.documented, by simp⟩

/-- **Histories stay documented.** -/
theorem HistoryKept.step {es : List TurnEvent} {m m' : TurnSystem} {e : TurnEvent}
    (h : HistoryKept es m) (hturns : TurnsKept (journalOf es) m) (hs : TurnStep m e m')
    (hkeeps : KeepsMeta m e) : HistoryKept (es ++ [e]) m' := by
  obtain ⟨hal, hfits, hstart⟩ := hkeeps
  have hdoc := h.documented.step hs
    (fun s hs => ⟨hturns.linked s hs, (h.live s hs).1, (h.live s hs).2⟩) hstart
  refine ⟨h.metas.step hturns.log hs hal hfits, hdoc, fun s' hs' => ?_⟩
  rcases hs.cases with ⟨rfl, s, d', ho, rfl⟩ | ⟨c, now, err, s, rfl, -, -, rfl⟩ |
    ⟨c, now, w, stop, s, hw, hcall, hproc, hentry, -, -, hproc'⟩
  · rw [journalOf_concat_of_no_write rfl]
    obtain rfl := Option.some.inj hs'
    have hmetas := h.metas.opened ho
    refine ⟨h.documented.store (hturns.log.opened ho).1 (hturns.heads.opened ho).1 hmetas, ?_⟩
    intro k hk
    rwa [hmetas, mem_metaMap] at hk
  · rw [journalOf_concat_of_no_write rfl]
    exact h.live s' hs'
  · rw [journalOf_concat_of_write hw]
    rw [hproc'] at hs'
    split at hs'
    · obtain rfl := Option.some.inj hs'
      obtain ⟨hlive, hlogged⟩ := h.live s hproc
      have hcallStart := hstart s hproc (c, now) hcall (by rw [hw]; exact Option.some_ne_none _)
      refine ⟨hlive.after (hturns.linked s hproc) hentry hcallStart _ stop, fun k hk => ?_⟩
      rw [Journal.append_metas, List.map_append]
      exact List.mem_append.mpr ((mem_turnMeta_after hk).imp_left (hlogged k))
    · cases hs'

/-! ### The store -/

variable {z : Zstd} {blake3 : Bytes → Hash}

/-- The step writes behind no torn record, what it writes fits its length fields, and it
starts from a turn that has metadata, if it is told to start from one. -/
def KeepsHistory (z : Zstd) (blake3 : Bytes → Hash) (m : StoreSystem) (a : StoreAct) : Prop :=
  KeepsRecords z blake3 m a ∧ (∀ e ∈ m.putEvent? z blake3 a, e.StoredFits z) ∧
    ∀ e ∈ m.turnEvent? z blake3 a, KeepsMeta m.turns e

instance (z : Zstd) (blake3 : Bytes → Hash) (m : StoreSystem) (a : StoreAct) :
    Decidable (KeepsHistory z blake3 m a) :=
  inferInstanceAs (Decidable (_ ∧ _))

/-- What the blob store sees of a step. -/
theorem StoreSystem.act_blobs {m m' : StoreSystem} {a : StoreAct}
    (h : m.act z blake3 a = some m') :
    ∃ b, Perhaps (BlobStep z) (m.putEvent? z blake3 a) m.blobs b ∧
      (m'.blobs = b ∨ m'.blobs = ⟨none, b.disk⟩) := by
  rcases StoreSystem.act_cases h with ⟨rfl, s, d', ho, rfl⟩ |
    ⟨c, now, fault, dies, s, x, s', rfl, hproc, -, hparts, hproc'⟩
  · exact ⟨_, .opened (Stores.openDir_ok ho).1, Or.inl rfl⟩
  · refine ⟨⟨some s'.blobStore, m'.disk.only blobFiles⟩, ?_, ?_⟩
    · simp only [putEvent?, blobs, hproc, Option.bind_some, Option.map_some]
      exact hparts.put
    · rcases hproc' with hlive | hdead
      · exact Or.inl (by rw [blobs, hlive]; rfl)
      · exact Or.inr (by rw [blobs, hdead]; rfl)

theorem BlobKept.dies {es : List BlobEvent} {p : Option BlobStore} {d : DataDir}
    (h : BlobKept z es ⟨p, d⟩) : BlobKept z es ⟨none, d⟩ :=
  ⟨h.located, by simp, h.acked⟩

/-- The stores are kept, their histories documented and their blobs located. -/
def ReadableKept (z : Zstd) (m : StoreSystem) : Prop :=
  ∃ es entries bs, StoreKept es entries m ∧ HistoryKept es m.turns ∧ BlobKept z bs m.blobs

theorem ReadableKept.initial : ReadableKept z StoreSystem.initial := by
  refine ⟨[], [], [], StoreKept.initial, ?_, ?_⟩
  · have hinit : StoreSystem.initial.turns = TurnSystem.initial := by
      simp [StoreSystem.turns, StoreSystem.initial, TurnSystem.initial, DataDir.only_empty]
    exact hinit ▸ HistoryKept.initial
  · have hinit : StoreSystem.initial.blobs = BlobSystem.initial := by
      simp [StoreSystem.blobs, StoreSystem.initial, BlobSystem.initial, DataDir.only_empty]
    exact hinit ▸ BlobKept.initial

/-- **Every step keeps the histories readable.** -/
theorem ReadableKept.step {m m' : StoreSystem} {a : StoreAct} (h : ReadableKept z m)
    (hs : m.act z blake3 a = some m') (hkeeps : KeepsHistory z blake3 m a) :
    ReadableKept z m' := by
  obtain ⟨es, entries, bs, hkept, hhist, hblobs⟩ := h
  obtain ⟨hrecords, hfits, hmeta⟩ := hkeeps
  obtain ⟨more, hkept'⟩ := hkept.step hs hrecords
  refine ⟨es ++ (m.turnEvent? z blake3 a).toList, entries ++ more,
    bs ++ (m.putEvent? z blake3 a).toList, hkept', ?_, ?_⟩
  · obtain ⟨t, hstep, ht⟩ := StoreSystem.act_turns hs
    have hnew : HistoryKept (es ++ (m.turnEvent? z blake3 a).toList) t := by
      cases he : m.turnEvent? z blake3 a with
      | none =>
          rw [he] at hstep
          obtain rfl := hstep
          rwa [Option.toList_none, List.append_nil]
      | some e =>
          rw [he] at hstep
          exact hhist.step hkept.turns hstep (hmeta e he)
    rcases ht with ht | ht
    · rwa [ht]
    · rw [ht]
      exact hnew.dies
  · obtain ⟨b, hstep, hb⟩ := StoreSystem.act_blobs hs
    have hnew : BlobKept z (bs ++ (m.putEvent? z blake3 a).toList) b := by
      cases he : m.putEvent? z blake3 a with
      | none =>
          rw [he] at hstep
          obtain rfl := hstep
          rwa [Option.toList_none, List.append_nil]
      | some e =>
          rw [he] at hstep
          exact hblobs.step hstep (hrecords.1 e he) (hfits e he)
    rcases hb with hb | hb
    · rwa [hb]
    · rw [hb]
      exact hnew.dies

/-- Every entry of the index is one of a stored blob. -/
theorem ReadableKept.get_ok (hz : z.Lossless) {m : StoreSystem} (h : ReadableKept z m)
    {s : Stores} (hs : m.proc = some s) {hash : Hash} (hmem : hash ∈ s.blobStore.index) :
    ∃ raw, s.blobStore.get z (m.disk .blobsPack) hash = .ok raw := by
  obtain ⟨es, entries, bs, hkept, -, hblobs⟩ := h
  obtain ⟨entry, hl⟩ := Finmap.mem_iff.mp hmem
  have hentry := hkept.index.live s.blobStore (by rw [StoreSystem.blobs, hs]; rfl) hash entry hl
  obtain ⟨ls, tail, hlay, -, hpacked⟩ := hblobs.located
  obtain ⟨tail', hlay'⟩ := hkept.index.layout
  rw [hlay'.unique hlay] at hentry
  obtain ⟨l, hl', hindexed⟩ := List.mem_map.mp hentry
  have hpacked := hpacked l hl'
  rw [hindexed] at hpacked
  dsimp only [StoreSystem.blobs] at hpacked
  rw [DataDir.only_of_mem m.disk (by decide)] at hpacked
  exact ⟨l.raw, get_of_packed hz hl hpacked⟩

/-- **The running store has readable histories.** -/
theorem ReadableKept.historyReadable (hz : z.Lossless) {m : StoreSystem}
    (h : ReadableKept z m) {s : Stores} (hs : m.proc = some s) :
    s.HistoryReadable z (m.disk .blobsPack) := by
  have hget : ∀ hash ∈ s.blobStore.index,
      ∃ raw, s.blobStore.get z (m.disk .blobsPack) hash = .ok raw := fun _ => h.get_ok hz hs
  obtain ⟨es, entries, bs, hkept, hhist, -⟩ := h
  have hlive := (hhist.live s.turnStore (by rw [StoreSystem.turns, hs]; rfl)).1
  exact hlive.historyReadable (hkept.sound hs).linked fun k r hr =>
    hget _ (hkept.live s hs k r hr)

end Cxdb
