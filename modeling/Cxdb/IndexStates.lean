import Mathlib.Data.FinEnum
import Cxdb.CqlFilter
import Cxdb.MetadataReads
import Cxdb.StoreSplit

/-!
# The States of the Indexes

The indexes are built from the cache when the store opens, and contexts are added to them one
at a time after that. The store adds a context when it caches its metadata for the first time,
so it never adds one that the indexes have; what they hold of a context is recorded once.

## Main results

* `Filled.indexed`: what indexes that are filled so hold.
* `Filled.once`: nothing is recorded twice of a context.
* `Store.Reachable.filled`: the indexes of a store are filled so, in every state that it can
  reach.
-/

open ByteFormat FaultyDisk

namespace Cxdb

/-! ### Filled indexes -/

/-- What is recorded when a context is added. -/
def Records.note (R : Records) (c : NewContext) : Records where
  ids id := R.ids id ∨ id = c.contextId
  metadata id m := R.metadata id m ∨ id = c.contextId ∧ c.metadata = some m
  heads id t d := R.heads id t d ∨ id = c.contextId ∧ t = c.createdAtUnixMs ∧ d = c.depth

/-- The indexes hold what is recorded because they were built from a cache, and contexts that
they did not have were added. -/
inductive Filled (U : UnicodeTables) : Records → SecondaryIndexes → Prop
  | new : Filled U .none .new
  | buildFromCache (cache : HashMap UInt64 (Option ContextMetadata)) (heads : List ContextHead)
      (hheads : (heads.map (·.contextId)).Nodup) :
      Filled U (.ofCache cache heads) (SecondaryIndexes.new.buildFromCache U cache heads)
  | addContext {R : Records} {ix : SecondaryIndexes} (h : Filled U R ix) (c : NewContext)
      (hnew : c.contextId ∉ ix.allContextIds) :
      Filled U (R.note c)
        (ix.addContext U c.contextId c.metadata c.createdAtUnixMs c.depth)

/-- Facts are recorded of known contexts, and once. -/
structure Records.Once (R : Records) : Prop where
  metadata_ids : ∀ id m, R.metadata id m → R.ids id
  heads_ids : ∀ id t d, R.heads id t d → R.ids id
  metadata : ∀ id m m', R.metadata id m → R.metadata id m' → m = m'
  heads : ∀ id t d t' d', R.heads id t d → R.heads id t' d' → t = t' ∧ d = d'

variable {U : UnicodeTables} {R : Records} {ix : SecondaryIndexes}

/-- Adding a context records it. -/
theorem Indexed.addContext (h : Indexed U R ix) (c : NewContext) :
    Indexed U (R.note c)
      (ix.addContext U c.contextId c.metadata c.createdAtUnixMs c.depth) := by
  rcases hm : c.metadata with _ | m
  · refine ((h.noteContext c.contextId).indexHead c.contextId c.createdAtUnixMs
      c.depth).congr ?_ ?_ ?_ <;> intros <;>
      simp [Records.note, Records.addId, Records.addHead, hm]
  · refine ((((h.noteContext c.contextId).indexMetadata c.contextId m).sortIndexes).indexHead
      c.contextId c.createdAtUnixMs c.depth).congr ?_ ?_ ?_ <;> intros <;>
      simp [Records.note, Records.addId, Records.addMetadata, Records.addHead, hm, eq_comm]

/-- **Filled indexes** hold what is recorded, in sorted vectors. -/
theorem Filled.indexed (h : Filled U R ix) : Indexed U R ix ∧ ix.Sorted := by
  induction h with
  | new => exact ⟨indexed_new, sorted_new⟩
  | buildFromCache cache heads _ => exact buildFromCache_indexed U cache heads
  | addContext _ c _ ih => exact ⟨ih.1.addContext c, ih.2.addContext _ _ _ _⟩

theorem once_ofCache (cache : HashMap UInt64 (Option ContextMetadata)) {heads : List ContextHead}
    (hheads : (heads.map (·.contextId)).Nodup) : (Records.ofCache cache heads).Once where
  metadata_ids id m h := Or.inl (Finmap.mem_iff.mpr ⟨_, h⟩)
  heads_ids id t d h := by
    obtain ⟨head, hmem, hid, -⟩ := h
    exact Or.inr ⟨head, hmem, hid⟩
  metadata id m m' h h' := Option.some.inj (Option.some.inj (h.symm.trans h'))
  heads id t d t' d' h h' := by
    obtain ⟨head, hmem, hid, rfl, rfl⟩ := h
    obtain ⟨head', hmem', hid', rfl, rfl⟩ := h'
    obtain rfl := List.inj_on_of_nodup_map hheads hmem hmem' (hid.trans hid'.symm)
    exact ⟨rfl, rfl⟩

/-- A context that is not known is recorded once. -/
theorem Records.Once.note (h : R.Once) {c : NewContext} (hnew : ¬R.ids c.contextId) :
    (R.note c).Once where
  metadata_ids id m := by
    rintro (hm | ⟨rfl, -⟩)
    · exact Or.inl (h.metadata_ids id m hm)
    · exact Or.inr rfl
  heads_ids id t d := by
    rintro (hh | ⟨rfl, -⟩)
    · exact Or.inl (h.heads_ids id t d hh)
    · exact Or.inr rfl
  metadata id m m' := by
    rintro (hm | ⟨rfl, hm⟩) (hm' | ⟨hid, hm'⟩)
    · exact h.metadata id m m' hm hm'
    · exact absurd (h.metadata_ids id m hm) (hid ▸ hnew)
    · exact absurd (h.metadata_ids _ m' hm') hnew
    · exact Option.some.inj (hm.symm.trans hm')
  heads id t d t' d' := by
    rintro (hh | ⟨rfl, rfl, rfl⟩) (hh' | ⟨hid, rfl, rfl⟩)
    · exact h.heads id t d t' d' hh hh'
    · exact absurd (h.heads_ids id t d hh) (hid ▸ hnew)
    · exact absurd (h.heads_ids _ t' d' hh') hnew
    · exact ⟨rfl, rfl⟩

/-- **Nothing is recorded twice** of a context. -/
theorem Filled.once (h : Filled U R ix) : R.Once := by
  induction h with
  | new => exact ⟨by simp [Records.none], by simp [Records.none], by simp [Records.none],
      by simp [Records.none]⟩
  | buildFromCache cache heads hheads => exact once_ofCache cache hheads
  | addContext h c hnew ih => exact ih.note fun hid => hnew ((h.indexed.1.all _).mpr hid)

open Classical in
/-- What is recorded of a context, which is known once. -/
noncomputable def Records.recorded (R : Records) (id : UInt64) : Recorded where
  metadata := if h : ∃ m, R.metadata id m then some h.choose else Option.none
  created := if h : ∃ t d, R.heads id t d then [h.choose] else []
  depth := if h : ∃ d t, R.heads id t d then [h.choose] else []

/-- A head is stored under the id of its context. -/
def TurnStore.Keyed (s : TurnStore) : Prop :=
  ∀ c head, s.heads.lookup c = some head → head.contextId = c

theorem keyed_insert {heads : HashMap UInt64 ContextHead}
    (h : ∀ c head, heads.lookup c = some head → head.contextId = c) (head : ContextHead) :
    ∀ c head', (heads.insert head.contextId head).lookup c = some head' → head'.contextId = c := by
  intro c head' hl
  rw [LastWrite.lookup_insert] at hl
  split at hl
  next hc => rw [← Option.some.inj hl, hc]
  next hc => exact h c head' hl

/-- A call keeps the heads under their ids. -/
theorem TurnStore.Keyed.after {s : TurnStore} (h : s.Keyed) (w : Entry) (offset : ℕ)
    (stop : Option (Fault DataFile)) : (s.after w offset stop).Keyed := by
  have hadd : ((s.takeId w).addTurn w offset).heads = s.heads := by
    rcases w with ⟨_ | t, head⟩ <;> rfl
  have htake : (s.takeId w).heads = s.heads := by
    rcases w with ⟨_ | t, head⟩ <;> rfl
  cases stop with
  | none =>
      intro c head hl
      rw [TurnStore.after, TurnStore.addHead, hadd] at hl
      exact keyed_insert h w.head c head hl
  | some f =>
      intro c head hl
      rw [TurnStore.after] at hl
      split at hl
      · rw [hadd] at hl
        exact h c head hl
      · rw [htake] at hl
        exact h c head hl

/-- A call puts an entry of the turn store there as far as it gets, or leaves it alone. -/
theorem StoreCall.turnStore_run (z : Zstd) (blake3 : Bytes → Hash) (c : StoreCall) (now : UInt64)
    (s : Stores) (d : DataDir) (fault : Option (Fault DataFile)) :
    (runCall (c.run z blake3 now) s d fault).2.1.turnStore = s.turnStore ∨
      ∃ w offset stop, (runCall (c.run z blake3 now) s d fault).2.1.turnStore =
        s.turnStore.after w offset stop := by
  have hcreate : ∀ base, (runCall (Cxdb.createContext base now) s.turnStore d fault).2.1 =
        s.turnStore ∨ ∃ w offset stop,
          (runCall (Cxdb.createContext base now) s.turnStore d fault).2.1 =
            s.turnStore.after w offset stop := by
    intro base
    rw [createContext_outcome]
    split
    · exact Or.inl rfl
    · exact Or.inr ⟨_, _, _, rfl⟩
  cases c with
  | createContext base =>
      rw [StoreCall.run, runCall_map, Stores.createContext, onTurns, runCall_zoom]
      exact hcreate base
  | forkContext base =>
      rw [StoreCall.run, runCall_map, Stores.forkContext, onTurns, runCall_zoom]
      exact hcreate base
  | appendTurn r =>
      rw [StoreCall.run, runCall_map]
      rcases hrun : runCall (Stores.appendTurn z blake3 r now) s d fault with ⟨x, s', d'⟩
      rcases (Stores.appendTurn_outcome hrun).2 with ⟨-, -, h⟩ | ⟨-, p, len, -, h, -⟩
      · exact Or.inl h
      · exact Or.inr ⟨_, _, _, h⟩
  | putBlob hash data =>
      refine Or.inl ?_
      rw [putBlob_run]
      split <;> rfl
  | attachFs turnId fsRootHash =>
      refine Or.inl ?_
      rw [StoreCall.run, runCall_map, Stores.attachFs_run]
      split
      · rfl
      · split_ifs <;> rfl

theorem Stores.keyed_run {s : Stores} (h : s.turnStore.Keyed) (z : Zstd) (blake3 : Bytes → Hash)
    (c : StoreCall) (now : UInt64) (d : DataDir) (fault : Option (Fault DataFile)) :
    (runCall (c.run z blake3 now) s d fault).2.1.turnStore.Keyed := by
  rcases StoreCall.turnStore_run z blake3 c now s d fault with hs | ⟨w, offset, stop, hs⟩
  · rw [hs]
    exact h
  · rw [hs]
    exact h.after w offset stop

/-- Opening puts the heads under their ids. -/
theorem TurnStore.keyed_openDir {d d' : DataDir} {s : TurnStore}
    (h : TurnStore.openDir d = .ok (s, d')) : s.Keyed := by
  have hheads := (openDir_ok h).2.2.1
  exact RecordLog.scan_preserves
    (P := fun heads => ∀ c head, Finmap.lookup c heads = some head → head.contextId = c)
    (fun heads _ head hkeyed => keyed_insert hkeyed head) (by simp) hheads

theorem LastWrite.nodup_sortedKeys {κ α : Type} [LinearOrder κ] (m : HashMap κ α) :
    (LastWrite.sortedKeys m).Nodup := by
  have hnodup := m.keys.nodup
  rw [LastWrite.sortedKeys]
  revert hnodup
  induction m.keys.val using Quot.inductionOn with
  | h l => exact fun hl => (List.perm_insertionSort _ _).nodup_iff.mpr hl

/-- The heads by context id. -/
theorem TurnStore.Keyed.map_contextId {s : TurnStore} (h : s.Keyed) :
    ((LastWrite.sortedKeys s.heads).filterMap s.heads.lookup).map (·.contextId) =
      LastWrite.sortedKeys s.heads := by
  have hall : ∀ ids : List UInt64, (∀ id ∈ ids, id ∈ s.heads) →
      (ids.filterMap s.heads.lookup).map (·.contextId) = ids := by
    intro ids
    induction ids with
    | nil => exact fun _ => rfl
    | cons id ids ih =>
        intro hids
        obtain ⟨head, hhead⟩ := Finmap.mem_iff.mp (hids id List.mem_cons_self)
        simp only [List.filterMap_cons, hhead, List.map_cons, h id head hhead]
        rw [ih fun id' hid' => hids id' (List.mem_cons_of_mem _ hid')]
  exact hall _ fun id hid => LastWrite.mem_sortedKeys.mp hid

/-- The newest heads are of different contexts. -/
theorem TurnStore.Keyed.nodup_listRecentContexts {s : TurnStore} (h : s.Keyed) (limit : ℕ) :
    ((s.listRecentContexts limit).map (·.contextId)).Nodup := by
  rw [TurnStore.listRecentContexts]
  refine List.Nodup.sublist ((List.take_sublist _ _).map _) ?_
  refine ((List.mergeSort_perm _ _).map _).nodup_iff.mpr ?_
  rw [h.map_contextId]
  exact LastWrite.nodup_sortedKeys _

/-! ### The states of the store -/

/-- What can become of a store and its files: a directory is opened, calls are made, whatever
faults they meet, and metadata is read. -/
inductive Store.Reachable (k : Crates) : Store × DataDir → Prop
  | openDir {d d' : DataDir} {s : Store} (h : Store.openDir k d = .ok (s, d')) :
      Reachable k (s, d')
  | op {m : Store × DataDir} (h : Reachable k m) (D : DateReader) (o : StoreOp) :
      Reachable k (o.run k D m).2
  | read {m : Store × DataDir} (h : Reachable k m) (read : MetadataRead) :
      Reachable k (read.run k m)

/-- Heads are stored under their own ids, and the indexes are filled, with contexts that are
cached. -/
structure Store.Consistent (k : Crates) (s : Store) : Prop where
  keyed : s.stores.turnStore.Keyed
  filled : ∃ R, Filled k.unicode R s.secondaryIndexes ∧
    ∀ id, R.ids id → id ∈ s.contextMetadataCache

variable {k : Crates}

/-- Caching the metadata of several contexts. -/
theorem Store.foldl_getContextMetadata (pack : Bytes) (heads : List ContextHead) (s : Store) :
    let s' := heads.foldl (fun s head => (s.getContextMetadata k pack head.contextId).2) s
    s'.stores = s.stores ∧ s'.secondaryIndexes = s.secondaryIndexes ∧
      ∀ id, id ∈ s'.contextMetadataCache ↔
        id ∈ s.contextMetadataCache ∨ ∃ head ∈ heads, head.contextId = id := by
  induction heads generalizing s with
  | nil => simp
  | cons head heads ih =>
      obtain ⟨hstores, hindexes, hcache⟩ := s.getContextMetadata_eq (k := k) pack head.contextId
      obtain ⟨ihstores, ihindexes, ihcache⟩ := ih (s.getContextMetadata k pack head.contextId).2
      refine ⟨ihstores.trans hstores, ihindexes.trans hindexes, fun id => ?_⟩
      rw [List.foldl_cons, ihcache, hcache, List.exists_mem_cons_iff, eq_comm (a := id)]
      tauto

/-- Building the indexes of a store that has just been opened. -/
theorem Store.consistent_buildIndexes {s : Store} (hkeyed : s.stores.turnStore.Keyed)
    (hnew : s.secondaryIndexes = .new) (pack : Bytes) : (s.buildIndexes k pack).Consistent k := by
  rw [Store.buildIndexes]
  set heads := s.stores.turnStore.listRecentContexts (2 ^ 32 - 1)
  obtain ⟨hstores, hindexes, hcache⟩ := Store.foldl_getContextMetadata (k := k) pack heads s
  set s' := heads.foldl (fun s head => (s.getContextMetadata k pack head.contextId).2) s
  have hfilled : Filled k.unicode (.ofCache s'.contextMetadataCache heads)
      (s'.secondaryIndexes.buildFromCache k.unicode s'.contextMetadataCache heads) := by
    rw [hindexes, hnew]
    exact .buildFromCache _ _ (hkeyed.nodup_listRecentContexts _)
  refine ⟨by rw [hstores]; exact hkeyed, _, hfilled, ?_⟩
  rintro id (hid | ⟨head, hhead, rfl⟩)
  · exact hid
  · exact (hcache _).mpr (Or.inr ⟨head, hhead, rfl⟩)

/-- A store that has been opened is consistent. -/
theorem Store.consistent_openDir {d d' : DataDir} {s : Store}
    (h : Store.openDir k d = .ok (s, d')) : s.Consistent k := by
  rw [Store.openDir] at h
  cases hopen : Stores.openDir d with
  | error e =>
      rw [hopen] at h
      cases h
  | ok r =>
      rw [hopen] at h
      obtain ⟨rfl, rfl⟩ := Prod.mk.inj (Except.ok.inj h)
      exact Store.consistent_buildIndexes
        (TurnStore.keyed_openDir (Stores.openDir_ok hopen).2) rfl _

/-- Noting a context keeps the store consistent. -/
theorem Store.Consistent.noted {s : Store} (h : s.Consistent k) (contextId : UInt64)
    (raw : Bytes) (createdAtUnixMs : UInt64) (depth : UInt32) :
    (s.noted k contextId raw createdAtUnixMs depth).2.Consistent k := by
  by_cases hcached : contextId ∈ s.contextMetadataCache
  · rw [Store.noted_cached hcached]
    exact h
  obtain ⟨R, hfilled, hids⟩ := h.filled
  rw [Store.noted_vacant hcached]
  refine ⟨h.keyed, ?_⟩
  cases extractContextMetadata k.readValue raw with
  | none =>
      exact ⟨R, hfilled, fun id hid => Finmap.mem_insert.mpr (Or.inr (hids id hid))⟩
  | some m =>
      have hnew : contextId ∉ s.secondaryIndexes.allContextIds := fun hid =>
        hcached (hids _ ((hfilled.indexed.1.all _).mp hid))
      refine ⟨_, hfilled.addContext ⟨contextId, some m, createdAtUnixMs, depth⟩ hnew, ?_⟩
      rintro id (hid | rfl)
      · exact Finmap.mem_insert.mpr (Or.inr (hids id hid))
      · exact Finmap.mem_insert.mpr (Or.inl rfl)

/-- A call of the three stores keeps the store consistent. -/
theorem Store.Consistent.stores {s : Store} (h : s.Consistent k) {stores : Stores}
    (hkeyed : stores.turnStore.Keyed) : ({ s with stores } : Store).Consistent k :=
  ⟨hkeyed, h.filled⟩

/-- **A step** keeps the store consistent. -/
theorem Store.Consistent.op {m : Store × DataDir} (h : m.1.Consistent k) (D : DateReader)
    (o : StoreOp) : (o.run k D m).2.1.Consistent k := by
  obtain ⟨s, d⟩ := m
  cases o with
  | call c now fault =>
      have hcall := Stores.keyed_run h.keyed k.zstd k.blake3 c now d fault
      cases c with
      | appendTurn r =>
          rw [StoreCall.run, runCall_map] at hcall
          simp only [StoreOp.run, Store.appendTurn_run]
          rcases hrun : runCall (Stores.appendTurn k.zstd k.blake3 r now) s.stores d fault with
            ⟨e | record, stores, d'⟩
          · rw [hrun] at hcall
            exact h.stores hcall
          · rw [hrun] at hcall
            obtain ⟨-, raw, hraw⟩ := Stores.checked_of_appendTurn hrun
            simp only [hraw]
            exact (h.stores hcall).noted _ _ _ _
      | _ =>
          simp only [StoreOp.run, onStores_run]
          exact h.stores hcall
  | _ => exact h

/-- So does a read of metadata. -/
theorem Store.Consistent.read {m : Store × DataDir} (h : m.1.Consistent k)
    (read : MetadataRead) : (read.run k m).1.Consistent k := by
  obtain ⟨ids, hrun⟩ := MetadataRead.run_eq (k := k) read
  obtain ⟨-, hstores, hindexes, hcache⟩ := hrun m
  obtain ⟨R, hfilled, hids⟩ := h.filled
  refine ⟨by rw [hstores]; exact h.keyed, R, by rw [hindexes]; exact hfilled, fun id hid => ?_⟩
  exact (hcache id).mpr (Or.inr (hids id hid))

/-- **Every state that a store can reach** is consistent. -/
theorem Store.Reachable.consistent {m : Store × DataDir} (h : Store.Reachable k m) :
    m.1.Consistent k := by
  induction h with
  | openDir h => exact Store.consistent_openDir h
  | op _ D o ih => exact ih.op D o
  | read _ read ih => exact ih.read read

theorem Store.Reachable.filled {m : Store × DataDir} (h : Store.Reachable k m) :
    ∃ R, Filled k.unicode R m.1.secondaryIndexes := by
  obtain ⟨R, hfilled, -⟩ := h.consistent.filled
  exact ⟨R, hfilled⟩

end Cxdb
