import Cxdb.ExceptLoops
import Cxdb.StoreSplit
import Cxdb.TurnDag
import Cxdb.TurnRecovery

/-!
# Readable Histories

`get_last` and `get_before` join every turn of a page with its metadata and its payload,
and fail if either is missing. A crash between the log and the metadata leaves a turn that
is stored without metadata; it is on no context's history, but `create_context` and
`append_turn` accept its id as a base or an explicit parent, since they look among the
turns only. From then on the history of that context cannot be read.

## Main results

* `Documented.step`: as long as bases and parents have metadata, so do all turns that a
  turn or a head points to.
* `history_readable`: every history can then be read, payloads included.
* `orphan_base_breaks_history`: a context on top of a turn without metadata.
-/

open ByteFormat FaultyDisk RecordLog LastWrite Transition ParentChain ExceptLoops

namespace Cxdb

/-! ### Metadata along histories -/

/-- The turn a call is told to start from; 0 stands for none, or for the head. -/
def TurnCall.start : TurnCall → UInt64
  | .createContext base | .forkContext base => base
  | .appendTurn a => a.parentTurnId

/-- A call that writes starts from a turn that has metadata, if it is told to start from
one. -/
def StartsDocumented (m : TurnSystem) (e : TurnEvent) : Prop :=
  ∀ s ∈ m.proc, ∀ c ∈ e.call, e.write ≠ none →
    c.1.start = 0 ∨ c.1.start ∈ s.turnMeta

instance (m : TurnSystem) (e : TurnEvent) : Decidable (StartsDocumented m e) :=
  inferInstanceAs (Decidable (∀ s ∈ m.proc, ∀ c ∈ e.call, _ → _))

/-- Every turn that a turn or a head of the journal points to has metadata. -/
structure Documented (j : Journal) : Prop where
  parent : ∀ r ∈ j.turns, r.parentTurnId = 0 ∨ r.parentTurnId ∈ j.metas.map Prod.fst
  head : ∀ h ∈ j.heads, h.headTurnId = 0 ∨ h.headTurnId ∈ j.metas.map Prod.fst

theorem Documented.initial : Documented (journalOf []) :=
  ⟨by simp [journalOf], by simp [journalOf]⟩

theorem mem_metaMap {metas : List (UInt64 × TurnMeta)} {k : UInt64} :
    k ∈ metaMap metas ↔ k ∈ metas.map Prod.fst := by
  rw [metaMap, mem_insertAll_empty, List.mem_map]

/-- Every turn that a turn or a head of the store points to has metadata. -/
structure TurnStore.Documented (s : TurnStore) : Prop where
  parent : ∀ k r, s.turns.lookup k = some r →
    r.parentTurnId = 0 ∨ r.parentTurnId ∈ s.turnMeta
  head : ∀ c h, s.heads.lookup c = some h → h.headTurnId = 0 ∨ h.headTurnId ∈ s.turnMeta

/-- The store of a documented journal. -/
theorem Documented.store {j : Journal} (h : Documented j) {s : TurnStore}
    (hturns : s.turns = turnMap j.turns) (hheads : s.heads = headMap j.heads)
    (hmetas : s.turnMeta = metaMap j.metas) : s.Documented where
  parent k r hr := by
    rw [hmetas, mem_metaMap]
    exact h.parent r (turnMap_lookup_inv (hturns ▸ hr)).1
  head c hd hhd := by
    rw [hmetas, mem_metaMap]
    exact h.head hd (headMap_lookup_inv (hheads ▸ hhd)).1

/-- What an entry points to has metadata. -/
theorem TurnStore.Documented.entry {s : TurnStore} (h : s.Documented) (hlinked : s.Linked)
    {now : UInt64} {c : TurnCall} {w : Entry} (hw : s.entryOf now c = .ok w)
    (hstart : c.start = 0 ∨ c.start ∈ s.turnMeta) :
    (∀ t, w.turn = some t → t.1.parentTurnId = 0 ∨ t.1.parentTurnId ∈ s.turnMeta) ∧
      (w.head.headTurnId = 0 ∨ w.head.headTurnId ∈ s.turnMeta ∨
        ∃ t, w.turn = some t ∧ t.1.turnId = w.head.headTurnId) := by
  have hid := hlinked.turnId
  cases c with
  | createContext base | forkContext base =>
      obtain ⟨b, hb, rfl⟩ := entryOf_create hw
      refine ⟨by simp, ?_⟩
      rcases baseOf_ok hb with ⟨-, rfl⟩ | ⟨hne, r, hr, rfl⟩
      · exact Or.inl rfl
      · exact Or.inr (Or.inl ((hid _ r hr).symm ▸ hstart.resolve_left hne))
  | appendTurn a =>
      obtain ⟨p, hp, rfl⟩ := entryOf_append hw
      refine ⟨?_, Or.inr (Or.inr ⟨_, rfl, rfl⟩)⟩
      rintro t ht
      obtain rfl := Option.some.inj ht
      rcases parentOf_ok hp with ⟨hne, r, hr, rfl⟩ |
        ⟨-, head, hhead, ⟨-, rfl⟩ | ⟨hne, r, hr, rfl⟩⟩
      · exact Or.inr ((hid _ r hr).symm ▸ hstart.resolve_left hne)
      · exact Or.inl rfl
      · -- The head of the context is documented already.
        exact Or.inr ((hid _ r hr).symm ▸ (h.head _ head hhead).resolve_left hne)

/-- **Every call keeps what is pointed to documented**, in the files. -/
theorem Documented.step {es : List TurnEvent} {m m' : TurnSystem} {e : TurnEvent}
    (h : Documented (journalOf es)) (hs : TurnStep m e m')
    (hlive : ∀ s, m.proc = some s → s.Linked ∧ s.Documented ∧
      ∀ k ∈ s.turnMeta, k ∈ (journalOf es).metas.map Prod.fst)
    (hstart : StartsDocumented m e) : Documented (journalOf (es ++ [e])) := by
  rcases hs.cases with ⟨rfl, -⟩ | ⟨c, now, err, s, rfl, -⟩ |
    ⟨c, now, w, stop, s, hw, hcall, hproc, hentry, -⟩
  · rwa [journalOf_concat_of_no_write rfl]
  · rwa [journalOf_concat_of_no_write rfl]
  · rw [journalOf_concat_of_write hw]
    obtain ⟨hlinked, hdoc, hlogged⟩ := hlive s hproc
    obtain ⟨hturn, hhead⟩ := hdoc.entry hlinked hentry
      (hstart s hproc (c, now) hcall (by simp [hw]))
    have hkeep : ∀ {k}, k ∈ (journalOf es).metas.map Prod.fst →
        k ∈ (journalOf es ++ w.saved stop).metas.map Prod.fst := by
      intro k hk
      rw [Journal.append_metas, List.map_append]
      exact List.mem_append_left _ hk
    constructor
    · intro r hr
      rcases List.mem_append.mp hr with hr | hr
      · exact (h.parent r hr).imp_right hkeep
      · obtain ⟨t, ht, rfl⟩ := Entry.mem_saved_turns hr
        exact (hturn t ht).imp_right fun hk => hkeep (hlogged _ hk)
    · intro hd hhd
      rcases List.mem_append.mp hhd with hhd | hhd
      · exact (h.head hd hhd).imp_right hkeep
      · obtain rfl := Entry.mem_saved_heads hhd
        rcases hhead with h0 | hold | ⟨t, ht, hname⟩
        · exact Or.inl h0
        · exact Or.inr (hkeep (hlogged _ hold))
        · -- The head record is written after the metadata of its turn.
          refine Or.inr ?_
          simp only [Entry.saved, List.mem_ite_nil_right] at hhd
          rw [Journal.append_metas, List.map_append, ← hname]
          refine List.mem_append_right _ ?_
          simp only [Entry.saved, ht]
          rw [if_pos (whole_of_rank_lt (by decide) hhd.1)]
          simp

/-! ### Payloads -/

/-- A turn of the journal comes from the entry of a call. -/
theorem exists_write_of_mem_turns {es : List TurnEvent} {r : TurnRecord}
    (h : r ∈ (journalOf es).turns) :
    ∃ e ∈ es, ∃ p ∈ e.write, ∃ t ∈ p.1.turn, t.1 = r := by
  obtain ⟨e, he, hr⟩ := List.mem_flatMap.mp h
  cases hw : e.write with
  | none => simp [TurnEvent.saved, hw, Journal.empty] at hr
  | some p =>
      rw [saved_of_write (show e.write = some (p.1, p.2) from hw)] at hr
      obtain ⟨t, ht, htr⟩ := Entry.mem_saved_turns hr
      exact ⟨e, he, p, hw, t, ht, htr⟩

/-- Every turn of the log has its payload in the blob store. -/
theorem PutFirst.stored {z : Zstd} {ps : List PartEvent} {b : BlobSystem} (h : PutFirst ps)
    (hkept : BlobKept z (blobEvents ps) b) {r : TurnRecord}
    (hr : r ∈ (journalOf (turnEvents ps)).turns) :
    r.payloadHash ∈ (storedBlobs (blobEvents ps)).map Prod.fst := by
  obtain ⟨e, he, p, hp, t, ht, rfl⟩ := exists_write_of_mem_turns hr
  obtain ⟨raw, hraw⟩ := h e he p hp t ht
  exact hkept.acked _ raw hraw

/-- A stored hash can be read. -/
theorem ShowsBlobs.get_ok {z : Zstd} {s : BlobStore} {pack : Bytes} {es : List BlobEvent}
    (h : ShowsBlobs z s pack es) {hash : Hash}
    (hmem : hash ∈ (storedBlobs es).map Prod.fst) : ∃ raw, s.get z pack hash = .ok raw := by
  obtain ⟨pre, ⟨hash', raw⟩, post, hsplit, rfl, hpost⟩ :=
    exists_last_of_mem (List.mem_map.mp hmem)
  exact ⟨raw, (h.present pre hash' raw post hsplit hpost).2.1⟩

/-! ### Reads -/

/-- The turn has metadata, and its payload can be read. -/
def Stores.Readable (z : Zstd) (s : Stores) (pack : Bytes) (r : TurnRecord) : Prop :=
  r.turnId ∈ s.turnStore.turnMeta ∧ ∃ raw, s.blobStore.get z pack r.payloadHash = .ok raw

/-- A page of readable turns is returned. -/
theorem Stores.withMeta_ok {z : Zstd} {s : Stores} {pack : Bytes} {turns : List TurnRecord}
    (h : ∀ r ∈ turns, s.Readable z pack r) (includePayload : Bool) :
    ∃ page, s.withMeta z pack includePayload turns = .ok page := by
  refine exists_mapM_eq_ok fun r hr => ?_
  obtain ⟨hmeta, raw, hraw⟩ := h r hr
  obtain ⟨m, hm⟩ := Finmap.mem_iff.mp hmeta
  cases includePayload with
  | true => exact ⟨⟨r, m, some raw⟩, by
      simp [TurnStore.getTurnMeta, hm, hraw, bind, Except.bind, pure, Except.pure]⟩
  | false => exact ⟨⟨r, m, none⟩, by
      simp [TurnStore.getTurnMeta, hm, bind, Except.bind, pure, Except.pure]⟩

/-- The histories of the store: the turns of every context, and those above every turn,
are readable. -/
structure Stores.HistoryReadable (z : Zstd) (s : Stores) (pack : Bytes) : Prop where
  linked : s.turnStore.Linked
  ofHead : ∀ c head, s.turnStore.heads.lookup c = some head →
    ∀ vs, Chain s.turnStore.forest head.headTurnId vs → ∀ r ∈ vs, s.Readable z pack r
  ofTurn : ∀ k r, s.turnStore.turns.lookup k = some r →
    ∀ vs, Chain s.turnStore.forest r.parentTurnId vs → ∀ r ∈ vs, s.Readable z pack r

/-- Readable histories are read. -/
theorem Stores.HistoryReadable.reads {z : Zstd} {s : Stores} {pack : Bytes}
    (h : s.HistoryReadable z pack) {c : UInt64} {head : ContextHead}
    (hhead : s.turnStore.heads.lookup c = some head) (limit : UInt32)
    (includePayload : Bool) :
    (∃ page, s.getLast z pack c limit includePayload = .ok page) ∧
    ∀ before, (∃ page, s.getBefore z pack c before limit includePayload = .ok page) ∨
      (before ∉ s.turnStore.turns ∧
        s.getBefore z pack c before limit includePayload =
          .error (.notFound "before turn")) := by
  obtain ⟨vs, hvs, hlast⟩ := h.linked.getLast hhead
  have hpage : ∀ {vs : List TurnRecord}, (∀ r ∈ vs, s.Readable z pack r) →
      ∃ page, s.withMeta z pack includePayload (vs.take limit.toNat).reverse = .ok page :=
    fun hread => Stores.withMeta_ok (fun r hr =>
      hread r (List.mem_of_mem_take (List.mem_reverse.mp hr))) includePayload
  obtain ⟨page, hpg⟩ := hpage (h.ofHead c head hhead vs hvs)
  refine ⟨⟨page, by simp [Stores.getLast, hlast, hpg, bind, Except.bind]⟩, fun before => ?_⟩
  by_cases hnone : before = 0 ∨ head.headTurnId = 0
  · exact Or.inl ⟨page, by
      simp [Stores.getBefore, TurnStore.getBefore, TurnStore.getHead, hhead, hnone, hlast, hpg,
        bind, Except.bind]⟩
  cases hb : s.turnStore.turns.lookup before with
  | none =>
      exact Or.inr ⟨Finmap.lookup_eq_none.mp hb, by
        simp [Stores.getBefore, TurnStore.getBefore, TurnStore.getHead, hhead, hnone, hb, bind,
          Except.bind]⟩
  | some r =>
      obtain ⟨ws, hws⟩ := h.linked.chain_of_turn hb
      obtain ⟨page', hpg'⟩ := hpage (h.ofTurn before r hb ws hws)
      exact Or.inl ⟨page', by
        simp [Stores.getBefore, TurnStore.getBefore, TurnStore.getHead, hhead, hnone, hb,
          TurnStore.walkBack_of_chain hws, hpg', bind, Except.bind, pure, Except.pure]⟩

/-- **A documented store whose payloads can be read has readable histories.** -/
theorem TurnStore.Documented.historyReadable {z : Zstd} {s : Stores} {pack : Bytes}
    (h : s.turnStore.Documented) (hlinked : s.turnStore.Linked)
    (hblobs : ∀ k r, s.turnStore.turns.lookup k = some r →
      ∃ raw, s.blobStore.get z pack r.payloadHash = .ok raw) : s.HistoryReadable z pack := by
  -- A documented turn is readable, and its parent is documented.
  have hnode : ∀ k v, k ∈ s.turnStore.turnMeta → s.turnStore.turns.lookup k = some v →
      s.Readable z pack v ∧ ∃ k, s.turnStore.turns.lookup k = some v := by
    intro k v hk hv
    exact ⟨⟨(hlinked.turnId k v hv).symm ▸ hk, hblobs k v hv⟩, k, hv⟩
  have hchain : ∀ k vs, (k = 0 ∨ k ∈ s.turnStore.turnMeta) → Chain s.turnStore.forest k vs →
      ∀ r ∈ vs, s.Readable z pack r ∧ ∃ k, s.turnStore.turns.lookup k = some r := by
    intro k vs hk hvs
    refine hvs.forall_mem (fun v hv => ?_) fun v hv p hp => ?_
    · rcases hk with rfl | hk
      · simp [TurnStore.forest, hlinked.zero] at hv
      · exact hnode k v hk hv
    · obtain ⟨-, k', hk'⟩ := hv
      rcases h.parent k' v hk' with h0 | hpar
      · simp [TurnStore.forest, h0, hlinked.zero] at hp
      · exact hnode _ p hpar hp
  refine ⟨hlinked, fun c head hhead vs hvs r hr => ?_, fun k t ht vs hvs r hr => ?_⟩
  · exact (hchain _ vs (h.head c head hhead) hvs r hr).1
  · exact (hchain _ vs (h.parent k t ht) hvs r hr).1

/-! ### Runs -/

/-- The call does not append behind a torn record, what it writes fits its length fields,
and it starts from a turn that has metadata, if it is told to start from one. -/
def KeepsReadable (z : Zstd) (blake3 : Bytes → Hash) (m : StoreSystem) (e : StoreEvent) :
    Prop :=
  (∀ b ∈ e.put? z blake3 m, b.StoredFits z) ∧
    ∀ t ∈ e.call? m, Recoverable m.turns t ∧ StartsDocumented m.turns t

instance (z : Zstd) (blake3 : Bytes → Hash) (m : StoreSystem) (e : StoreEvent) :
    Decidable (KeepsReadable z blake3 m e) :=
  inferInstanceAs (Decidable (_ ∧ _))

theorem noFailure_of_mem_put {z : Zstd} {blake3 : Bytes → Hash} {m : StoreSystem}
    {e : StoreEvent} {b : BlobEvent} (h : b ∈ e.put? z blake3 m) : b.NoFailure := by
  cases e with
  | opened => simp [StoreEvent.put?] at h
  | acked c now x | rejected c now x =>
      simp only [StoreEvent.put?, bind, Option.mem_def, Option.bind_eq_some_iff,
        Option.some.injEq] at h
      obtain ⟨s, -, p, -, rfl⟩ := h
      split <;> trivial
  | crashed c now f =>
      simp only [StoreEvent.put?, bind, Option.mem_def, Option.bind_eq_some_iff,
        Option.some.injEq] at h
      obtain ⟨s, -, p, -, rfl⟩ := h
      split
      · trivial
      · split <;> trivial

theorem noFailure_of_mem_call {m : StoreSystem} {e : StoreEvent} {t : TurnEvent}
    (h : t ∈ e.call? m) : t.NoFailure := by
  cases e with
  | opened | rejected => simp [StoreEvent.call?] at h
  | acked c now x =>
      simp only [StoreEvent.call?, bind, Option.mem_def, Option.bind_eq_some_iff,
        Option.some.injEq] at h
      obtain ⟨s, -, tc, -, w, -, rfl⟩ := h
      trivial
  | crashed c now f =>
      simp only [StoreEvent.call?, Option.mem_def] at h
      split at h
      · simp only [bind, Option.bind_eq_some_iff, Option.some.injEq] at h
        obtain ⟨s, -, tc, -, w, -, rfl⟩ := h
        trivial
      · simp at h

/-- Memory in step with the files, and everything pointed to documented. -/
structure TurnHistory (es : List TurnEvent) (m : TurnSystem) : Prop where
  mirror : Mirror (journalOf es) m
  metas : MetaMirror (journalOf es) m
  dag : Dag (journalOf es)
  documented : Documented (journalOf es)

/-- Runs of the turn store that keep histories documented. -/
theorem turnHistory_of_run {es : List TurnEvent} {m : TurnSystem}
    (h : Run (Guarded (fun m e => e.NoFailure ∧ Recoverable m e ∧ StartsDocumented m e)
      TurnStep) TurnSystem.initial es m) : TurnHistory es m := by
  refine h.invariant (I := TurnHistory)
    ⟨Mirror.initial, MetaMirror.initial, Dag.initial, Documented.initial⟩ ?_
  rintro es m e m' ⟨hmir, hmeta, hdag, hdoc⟩ ⟨⟨hno, ⟨hfits, halm, halh⟩, hstart⟩, hs⟩
  refine ⟨hmir.step hs hno halh, hmeta.step hmir.log hs hno halm hfits,
    hdag.step hs hmir.log fun s hproc k r hr => ?_, hdoc.step hs (fun s hproc => ?_) hstart⟩
  · rw [(hmir.live s hproc).1] at hr
    exact (turnMap_lookup_inv hr).1
  · obtain ⟨hturns, hheads, -⟩ := hmir.live s hproc
    have hmetas := hmeta.live s hproc
    refine ⟨hmir.linked hdag hproc, hdoc.store hturns hheads hmetas, fun k hk => ?_⟩
    rwa [hmetas, mem_metaMap] at hk

/-- **History is readable.** In every run of calls of the store, crashes at any byte of
their writes and reopenings in which every base and every explicit parent has metadata and
no record is written behind a torn one: the directory opens in every state reached, and
the running store returns every page of every context, payloads included. -/
theorem history_readable {z : Zstd} (hz : z.Lossless) {blake3 : Bytes → Hash}
    {es : List StoreEvent} {m : StoreSystem}
    (h : Run (Guarded (KeepsReadable z blake3) (StoreStep z blake3)) StoreSystem.initial
      es m) :
    (∃ s d', Stores.openDir m.disk = .ok (s, d')) ∧
    ∀ s, m.proc = some s → ∀ c head, s.turnStore.heads.lookup c = some head →
      ∀ limit,
        (∃ page, s.getLast z (m.disk .blobsPack) c limit true = .ok page) ∧
        ∀ before,
          (∃ page, s.getBefore z (m.disk .blobsPack) c before limit true = .ok page) ∨
          (before ∉ s.turnStore.turns ∧
            s.getBefore z (m.disk .blobsPack) c before limit true =
              .error (.notFound "before turn")) := by
  obtain ⟨ps, hps, hput⟩ := partsRun
    (B := fun _ b => b.NoFailure ∧ b.StoredFits z)
    (T := fun t e => e.NoFailure ∧ Recoverable t e ∧ StartsDocumented t e)
    (fun m e hC b hb => ⟨noFailure_of_mem_put hb, hC.1 b hb⟩)
    (fun m e hC t ht => ⟨noFailure_of_mem_call ht, hC.2 t ht⟩) h
  obtain ⟨t, ht, htdisk, htproc⟩ := turnRun
    (D := fun t e => e.NoFailure ∧ Recoverable t e ∧ StartsDocumented t e)
    (fun t => by
      simp [TurnEvent.NoFailure, Recoverable, TurnEvent.TypeIdFits, Aligned, StartsDocumented,
        TurnEvent.write])
    (fun _ _ hC => hC) hps
  obtain ⟨b, hb, hbdisk, hbproc⟩ := blobRun
    (D := fun _ e => e.NoFailure ∧ e.StoredFits z)
    (fun b => by simp [BlobEvent.NoFailure, BlobEvent.StoredFits, BlobEvent.write])
    (fun _ _ hC => hC) hps
  have hhist := turnHistory_of_run ht
  have hblobs : BlobMirror z (blobEvents ps) b := by
    refine hb.invariant (I := BlobMirror z) BlobMirror.initial ?_
    intro es m e m' hmir hs
    exact hmir.step hs.2 hs.1.1 hs.1.2
  constructor
  · obtain ⟨ts, dt, hto, -⟩ := shows_of_kept hhist.mirror.log hhist.metas.metas
      hhist.mirror.heads
    obtain ⟨bs, db, hbo, -⟩ := hblobs.kept.shows hz
    rw [htdisk] at hto
    rw [hbdisk] at hbo
    obtain ⟨s, d', ho, -⟩ := openDir_of_parts hbo hto
    exact ⟨s, d', ho⟩
  · intro s hs c head hhead limit
    have hne : m.proc ≠ none := by simp [hs]
    obtain rfl := htproc hne
    obtain rfl := hbproc hne
    have hts : m.turns.proc = some s.turnStore := by simp [StoreSystem.turns, hs]
    have hbs : m.blobs.proc = some s.blobStore := by simp [StoreSystem.blobs, hs]
    obtain ⟨hturns, hheads, -⟩ := hhist.mirror.live s.turnStore hts
    obtain ⟨ls, tail, hlay, hstored, hpacked⟩ := hblobs.kept.located
    have hshows := showsBlobs_of_index hz hstored hpacked
      (tail_eq_nil_of_loadIndex hlay (hblobs.live s.blobStore hbs)).2
    have hread : s.HistoryReadable z (m.disk .blobsPack) := by
      refine (hhist.documented.store hturns hheads
        (hhist.metas.live s.turnStore hts)).historyReadable
          (hhist.mirror.linked hhist.dag hts) fun k r hr => ?_
      rw [hturns] at hr
      exact hshows.get_ok (hput.stored hblobs.kept (turnMap_lookup_inv hr).1)
    exact hread.reads hhead limit true

/-- An append of the empty payload to context `contextId`. -/
def emptyAppend (contextId parentTurnId : UInt64) : StoreCall :=
  .appendTurn
    { contextId, parentTurnId, declaredTypeId := "", declaredTypeVersion := 1, encoding := 1,
      compression := 0, uncompressedLen := 0, contentHash := emptyHash, payloadBytes := [] }

/-- Appends, a crash in a head record, a reopening, and a fork from the turn whose head
record was torn. -/
def crashedForkInputs : List StoreInput :=
  [.opening, .call (.createContext 0) 0, .call (emptyAppend 1 0) 1,
    .crashing (emptyAppend 1 0) 2 ⟨.headsTbl, 20⟩, .opening, .call (.forkContext 2) 3,
    .call (emptyAppend 2 0) 4]

set_option maxRecDepth 4000 in
/-- `history_readable` over a crash and a fork. -/
theorem history_readable_crashedForkInputs :
    ∃ es m s, execAll (KeepsReadable rawBlockZstd fun _ => emptyHash)
        (StoreSystem.exec rawBlockZstd fun _ => emptyHash) StoreSystem.initial
        crashedForkInputs = some (es, m) ∧ m.proc = some s ∧
      s.turnStore.heads.keys = {1, 2} ∧
      ∀ c head, s.turnStore.heads.lookup c = some head → ∀ limit,
        ∃ page, s.getLast rawBlockZstd (m.disk .blobsPack) c limit true = .ok page := by
  obtain ⟨es, m, h, hrun, hproc, hkeys⟩ := exists_run_of_execAll
    (KeepsReadable rawBlockZstd fun _ => emptyHash)
    (StoreSystem.step_of_exec rawBlockZstd fun _ => emptyHash) StoreSystem.initial
    crashedForkInputs
    (fun _ m => m.proc.isSome = true ∧ ∀ s ∈ m.proc, s.turnStore.heads.keys = {1, 2})
    (by decide +kernel)
  obtain ⟨s, hs⟩ := Option.isSome_iff_exists.mp hproc
  exact ⟨es, m, s, h, hs, hkeys s hs, fun c head hhead limit =>
    ((history_readable rawBlockZstd_lossless hrun).2 s hs c head hhead limit).1⟩

/-! ### A context on top of a turn without metadata -/

/-- An append dies between the log and the metadata; after the reopening a context is
created on top of its turn. -/
def orphanBaseInputs : List StoreInput :=
  [.opening, .call (.createContext 0) 0, .crashing (emptyAppend 1 0) 1 ⟨.turnsMeta, 0⟩,
    .opening, .call (.createContext 1) 2]

set_option maxRecDepth 4000 in
/-- **A context whose history cannot be read.** -/
theorem orphan_base_breaks_history :
    ∃ es m s head, execAll (fun _ _ => True)
        (StoreSystem.exec rawBlockZstd fun _ => emptyHash) StoreSystem.initial
        orphanBaseInputs = some (es, m) ∧
      Run (StoreStep rawBlockZstd fun _ => emptyHash) StoreSystem.initial es m ∧
      m.proc = some s ∧ s.turnStore.heads.lookup 2 = some head ∧
      ¬ ∃ page, s.getLast rawBlockZstd (m.disk .blobsPack) 2 1 true = .ok page := by
  obtain ⟨es, m, h, hrun, hproc, hlost⟩ := exists_run_of_execAll (fun _ _ => True)
    (StoreSystem.step_of_exec rawBlockZstd fun _ => emptyHash) StoreSystem.initial
    orphanBaseInputs
    (fun _ m => m.proc.isSome = true ∧ ∀ s ∈ m.proc,
      (s.turnStore.heads.lookup 2).isSome = true ∧
        (s.getLast rawBlockZstd (m.disk .blobsPack) 2 1 true).toOption.isSome = false)
    (by decide +kernel)
  obtain ⟨s, hs⟩ := Option.isSome_iff_exists.mp hproc
  obtain ⟨hhead, hread⟩ := hlost s hs
  obtain ⟨head, hhead⟩ := Option.isSome_iff_exists.mp hhead
  refine ⟨es, m, s, head, h, hrun.of_guarded, hs, hhead, ?_⟩
  rintro ⟨page, hpage⟩
  simp [hpage, Except.toOption] at hread

end Cxdb
