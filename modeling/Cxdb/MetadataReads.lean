import Cxdb.Handler
import Cxdb.InsertedReads
import Cxdb.StoreCalls

/-!
# Reads of Metadata

`get_context_metadata` fills the cache that `append_turn` looks into to find out whether it
extracts and indexes the metadata of a payload. So a read of the metadata can be observed: not
in the stores or in the files, but in what the next append returns and in the indexes.

## Main results

* `StoreOp.simulation`: inserted reads leave everything alone but the cache, and the results
  of an append that meets its guard.
* `metadata_reads_observed_iff`: the results of a run are the same with the inserted reads if
  and only if every append meets its guard.
-/

open ByteFormat FaultyDisk InsertedReads

namespace Cxdb

/-! ### Runs of the store -/

/-- The operations of the store. -/
inductive StoreOp where
  | call (c : StoreCall) (now : UInt64) (fault : Option (Fault DataFile))
  | getHead (contextId : UInt64)
  | getLast (contextId : UInt64) (limit : UInt32) (includePayload : Bool)
  | getBefore (contextId beforeTurnId : UInt64) (limit : UInt32) (includePayload : Bool)
  | listRecentContexts (limit : UInt32)
  | searchContexts (query : String) (liveContexts : Finset UInt64) (limit : Option UInt32)
  | listContextsByLabel (label : String) (limit : UInt32)
  | childContextIds (parentContextId : UInt64)
  | descendantContextIds (parentContextId : UInt64) (limit : Option UInt32)

/-- What they return; an append also has the events that are published for it. -/
inductive StoreResult where
  | call (reply : Except StoreError (StoreReply × Option ContextMetadata))
      (events : List BusEvent)
  | head (head : Except StoreError ContextHead)
  | turns (turns : Except StoreError (List TurnWithMeta))
  | heads (heads : List ContextHead)
  | found (found : Except CqlError SearchResult)
  | ids (ids : List UInt64)

/-- The reads of metadata: the call itself, and the JSON of a context over HTTP. -/
inductive MetadataRead where
  | getContextMetadata (contextId : UInt64)
  | contextToJson (contextId : UInt64)

variable (k : Crates) (D : DateReader)

/-- The result of an append, with its events. -/
def appendResult (r : AppendRequest)
    (x : Except StoreError (TurnRecord × Option ContextMetadata)) : StoreResult :=
  .call (x.map fun p => (.turn p.1, p.2)) <| x.toOption.elim [] fun p =>
    appendEvents r.contextId r.declaredTypeId r.declaredTypeVersion p.1 p.2

/-- The result of another call. -/
def callResult (x : Except StoreError StoreReply) : StoreResult :=
  .call (x.map fun reply => (reply, none)) []

/-- An operation on a store and its files. -/
def StoreOp.run (o : StoreOp) (m : Store × DataDir) : StoreResult × (Store × DataDir) :=
  match o with
  | .call (.appendTurn r) now fault =>
      let (x, s, d) := runCall (Store.appendTurn k r now) m.1 m.2 fault
      (appendResult r x, (s, d))
  | .call c now fault =>
      let (x, s, d) := runCall (onStores (c.run k.zstd k.blake3 now)) m.1 m.2 fault
      (callResult x, (s, d))
  | .getHead contextId => (.head (m.1.stores.turnStore.getHead contextId), m)
  | .getLast contextId limit includePayload =>
      (.turns (m.1.stores.getLast k.zstd (m.2 .blobsPack) contextId limit includePayload), m)
  | .getBefore contextId beforeTurnId limit includePayload =>
      (.turns (m.1.stores.getBefore k.zstd (m.2 .blobsPack) contextId beforeTurnId limit
        includePayload), m)
  | .listRecentContexts limit =>
      (.heads (m.1.stores.turnStore.listRecentContexts limit.toNat), m)
  | .searchContexts query liveContexts limit =>
      (.found (m.1.secondaryIndexes.searchContexts k.unicode D query liveContexts limit), m)
  | .listContextsByLabel label limit => (.heads (m.1.listContextsByLabel label limit), m)
  | .childContextIds parentContextId =>
      (.ids (m.1.secondaryIndexes.childContextIds parentContextId), m)
  | .descendantContextIds parentContextId limit =>
      (.ids (m.1.secondaryIndexes.descendantContextIds parentContextId limit), m)

/-- A read of metadata; `context_to_json` looks for the head of the context first. -/
def MetadataRead.run (read : MetadataRead) (m : Store × DataDir) : Store × DataDir :=
  match read with
  | .getContextMetadata contextId =>
      ((m.1.getContextMetadata k (m.2 .blobsPack) contextId).2, m.2)
  | .contextToJson contextId =>
      match m.1.stores.turnStore.getHead contextId with
      | .ok _ => ((m.1.getContextMetadata k (m.2 .blobsPack) contextId).2, m.2)
      | .error _ => m

/-- The store as a system. -/
def storeSystem : System (Store × DataDir) StoreOp MetadataRead StoreResult where
  op := StoreOp.run k D
  read := MetadataRead.run k

/-! ### What inserted reads change -/

/-- An append that the store accepts, and whose payload has metadata, finds its context in
the cache only if it finds it there without the inserted reads. -/
def StoreOp.Unspoilt (o : StoreOp) (m m' : Store × DataDir) : Prop :=
  match o with
  | .call (.appendTurn r) _ fault =>
      r.Reaches k.zstd k.blake3 m.1.stores fault ∧ Spares fault turnFiles →
        (∃ raw metadata, r.checked k.zstd k.blake3 = .ok raw ∧
          extractContextMetadata k.readValue raw = some metadata) →
        r.contextId ∈ m'.1.contextMetadataCache → r.contextId ∈ m.1.contextMetadataCache
  | _ => True

/-- The run with the inserted reads has the same stores, files and indexes, and has cached at
least the same contexts. -/
structure CachesMore (m m' : Store × DataDir) : Prop where
  files : m'.2 = m.2
  stores : m'.1.stores = m.1.stores
  indexes : m'.1.secondaryIndexes = m.1.secondaryIndexes
  cached : ∀ id, id ∈ m.1.contextMetadataCache → id ∈ m'.1.contextMetadataCache

variable {k D} {m m' : Store × DataDir}

theorem Store.getContextMetadata_eq (s : Store) (pack : Bytes) (contextId : UInt64) :
    (s.getContextMetadata k pack contextId).2.stores = s.stores ∧
      (s.getContextMetadata k pack contextId).2.secondaryIndexes = s.secondaryIndexes ∧
      ∀ id, id ∈ (s.getContextMetadata k pack contextId).2.contextMetadataCache ↔
        id = contextId ∨ id ∈ s.contextMetadataCache := by
  rw [getContextMetadata]
  cases hl : s.contextMetadataCache.lookup contextId with
  | some cached =>
      refine ⟨rfl, rfl, fun id => ⟨Or.inr, ?_⟩⟩
      rintro (rfl | hid)
      · exact Finmap.mem_iff.mpr ⟨cached, hl⟩
      · exact hid
  | none => exact ⟨rfl, rfl, fun id => Finmap.mem_insert⟩

/-- **A read leaves everything alone but the cache**, where it puts one context at most, and
whether it does depends on the heads only. -/
theorem MetadataRead.run_eq (read : MetadataRead) :
    ∃ ids : TurnStore → Set UInt64, ∀ m : Store × DataDir,
      (read.run k m).2 = m.2 ∧ (read.run k m).1.stores = m.1.stores ∧
        (read.run k m).1.secondaryIndexes = m.1.secondaryIndexes ∧
        ∀ id, id ∈ (read.run k m).1.contextMetadataCache ↔
          id ∈ ids m.1.stores.turnStore ∨ id ∈ m.1.contextMetadataCache := by
  cases read with
  | getContextMetadata contextId =>
      refine ⟨fun _ => {contextId}, fun m => ⟨rfl, ?_⟩⟩
      exact m.1.getContextMetadata_eq (m.2 .blobsPack) contextId
  | contextToJson contextId =>
      refine ⟨fun s => {id | id = contextId ∧ ∃ head, s.getHead contextId = .ok head},
        fun m => ?_⟩
      rw [MetadataRead.run]
      cases hhead : m.1.stores.turnStore.getHead contextId with
      | ok head =>
          obtain ⟨hstores, hindexes, hcache⟩ :=
            m.1.getContextMetadata_eq (k := k) (m.2 .blobsPack) contextId
          refine ⟨rfl, hstores, hindexes, fun id => (hcache id).trans ?_⟩
          simp [hhead]
      | error e => exact ⟨rfl, rfl, rfl, fun id => by simp [hhead]⟩

/-- Reads keep the relation. -/
theorem CachesMore.read (h : CachesMore m m') (read : MetadataRead) :
    CachesMore (read.run k m) (read.run k m') := by
  obtain ⟨ids, hrun⟩ := MetadataRead.run_eq (k := k) read
  obtain ⟨hfiles, hstores, hindexes, hcache⟩ := hrun m
  obtain ⟨hfiles', hstores', hindexes', hcache'⟩ := hrun m'
  refine ⟨by rw [hfiles', hfiles, h.files], by rw [hstores', hstores, h.stores],
    by rw [hindexes', hindexes, h.indexes], fun id hid => ?_⟩
  rw [hcache', h.stores]
  exact ((hcache id).mp hid).imp_right (h.cached id)

/-- So do inserted ones. -/
theorem CachesMore.inserted (h : CachesMore m m') (read : MetadataRead) :
    CachesMore m (read.run k m') := by
  obtain ⟨ids, hrun⟩ := MetadataRead.run_eq (k := k) read
  obtain ⟨hfiles, hstores, hindexes, hcache⟩ := hrun m'
  exact ⟨hfiles.trans h.files, hstores.trans h.stores, hindexes.trans h.indexes,
    fun id hid => (hcache id).mpr (.inr (h.cached id hid))⟩

/-! ### Appends -/

/-- What `append_turn` notes of a context that is cached. -/
theorem Store.noted_cached {s : Store} {contextId : UInt64}
    (h : contextId ∈ s.contextMetadataCache) (raw : Bytes) (createdAtUnixMs : UInt64)
    (depth : UInt32) : s.noted k contextId raw createdAtUnixMs depth = (none, s) := by
  obtain ⟨cached, hcached⟩ := Finmap.mem_iff.mp h
  rw [Store.noted, hcached]

/-- And of one that is not. -/
theorem Store.noted_vacant {s : Store} {contextId : UInt64}
    (h : contextId ∉ s.contextMetadataCache) (raw : Bytes) (createdAtUnixMs : UInt64)
    (depth : UInt32) :
    s.noted k contextId raw createdAtUnixMs depth =
      (extractContextMetadata k.readValue raw,
        { s with
          contextMetadataCache :=
            s.contextMetadataCache.insert contextId (extractContextMetadata k.readValue raw)
          secondaryIndexes :=
            if (extractContextMetadata k.readValue raw).isSome then
              s.secondaryIndexes.addContext k.unicode contextId
                (extractContextMetadata k.readValue raw) createdAtUnixMs depth
            else s.secondaryIndexes }) := by
  rw [Store.noted, Finmap.lookup_eq_none.mpr h]

/-- **Noting an append** comes to the same, if its metadata meets the same cache. -/
theorem CachesMore.noted {s s' : Store} {d d' : DataDir} (h : CachesMore (s, d) (s', d'))
    {contextId : UInt64} {raw : Bytes}
    (hcache : ∀ metadata, extractContextMetadata k.readValue raw = some metadata →
      contextId ∈ s'.contextMetadataCache → contextId ∈ s.contextMetadataCache)
    (createdAtUnixMs : UInt64) (depth : UInt32) :
    (s'.noted k contextId raw createdAtUnixMs depth).1 =
        (s.noted k contextId raw createdAtUnixMs depth).1 ∧
      CachesMore ((s.noted k contextId raw createdAtUnixMs depth).2, d)
        ((s'.noted k contextId raw createdAtUnixMs depth).2, d') := by
  by_cases hs : contextId ∈ s.contextMetadataCache
  · rw [Store.noted_cached hs, Store.noted_cached (h.cached contextId hs)]
    exact ⟨rfl, h⟩
  by_cases hs' : contextId ∈ s'.contextMetadataCache
  · have hnone : extractContextMetadata k.readValue raw = none := by
      by_contra hsome
      obtain ⟨metadata, hmetadata⟩ := Option.ne_none_iff_exists'.mp hsome
      exact hs (hcache metadata hmetadata hs')
    rw [Store.noted_vacant hs, Store.noted_cached hs', hnone]
    refine ⟨rfl, h.files, h.stores, h.indexes, fun id hid => ?_⟩
    rcases Finmap.mem_insert.mp hid with rfl | hid
    · exact hs'
    · exact h.cached id hid
  · have hindexes : s'.secondaryIndexes = s.secondaryIndexes := h.indexes
    rw [Store.noted_vacant hs, Store.noted_vacant hs', hindexes]
    refine ⟨rfl, h.files, h.stores, rfl, fun id hid => ?_⟩
    exact Finmap.mem_insert.mpr ((Finmap.mem_insert.mp hid).imp_right (h.cached id))

/-- The payload of an append that the store accepts has passed the checks. -/
theorem Stores.checked_of_appendTurn {z : Zstd} {blake3 : Bytes → Hash} {r : AppendRequest}
    {now : UInt64} {s : Stores} {d : DataDir} {fault : Option (Fault DataFile)}
    {record : TurnRecord} {s' : Stores} {d' : DataDir}
    (h : runCall (Stores.appendTurn z blake3 r now) s d fault = (.ok record, s', d')) :
    (r.Reaches z blake3 s fault ∧ Spares fault turnFiles) ∧
      ∃ raw, r.checked z blake3 = .ok raw := by
  have hok := (Stores.appendTurn_isOk z blake3 r now s d fault).mp ⟨record, by rw [h]⟩
  exact ⟨hok, hok.1.1⟩

/-- **An unspoilt append** returns the same. -/
theorem CachesMore.appendTurn (h : CachesMore m m') {r : AppendRequest} {now : UInt64}
    {fault : Option (Fault DataFile)}
    (hunspoilt : (StoreOp.call (.appendTurn r) now fault).Unspoilt k m m') :
    (StoreOp.run k D (.call (.appendTurn r) now fault) m').1 =
        (StoreOp.run k D (.call (.appendTurn r) now fault) m).1 ∧
      CachesMore (StoreOp.run k D (.call (.appendTurn r) now fault) m).2
        (StoreOp.run k D (.call (.appendTurn r) now fault) m').2 := by
  obtain ⟨s, d⟩ := m
  obtain ⟨s', d'⟩ := m'
  obtain rfl : d' = d := h.files
  simp only [StoreOp.run, Store.appendTurn_run, show s'.stores = s.stores from h.stores]
  rcases hrun : runCall (Stores.appendTurn k.zstd k.blake3 r now) s.stores d' fault with
    ⟨e | record, stores, d''⟩
  · exact ⟨rfl, rfl, rfl, h.indexes, h.cached⟩
  · obtain ⟨haccepted, raw, hraw⟩ := Stores.checked_of_appendTurn hrun
    have hstores : CachesMore ({ s with stores }, d'') ({ s' with stores }, d'') :=
      ⟨rfl, rfl, h.indexes, h.cached⟩
    obtain ⟨hmetadata, hfollows⟩ := hstores.noted
      (fun metadata hmetadata => hunspoilt haccepted ⟨raw, metadata, hraw, hmetadata⟩)
      record.createdAtUnixMs record.depth
    simp only [hraw, hmetadata]
    exact ⟨trivial, hfollows⟩

/-- **A spoilt append** returns no metadata. -/
theorem CachesMore.appendTurn_differs (h : CachesMore m m') {r : AppendRequest} {now : UInt64}
    {fault : Option (Fault DataFile)}
    (hspoilt : ¬(StoreOp.call (.appendTurn r) now fault).Unspoilt k m m') :
    (StoreOp.run k D (.call (.appendTurn r) now fault) m').1 ≠
      (StoreOp.run k D (.call (.appendTurn r) now fault) m).1 := by
  obtain ⟨s, d⟩ := m
  obtain ⟨s', d'⟩ := m'
  obtain rfl : d' = d := h.files
  simp only [StoreOp.Unspoilt, Classical.not_imp] at hspoilt
  obtain ⟨haccepted, ⟨raw, metadata, hraw, hmetadata⟩, hcached, hvacant⟩ := hspoilt
  simp only [StoreOp.run, Store.appendTurn_run, show s'.stores = s.stores from h.stores]
  obtain ⟨record, hrecord⟩ :=
    (Stores.appendTurn_isOk k.zstd k.blake3 r now s.stores d' fault).mpr haccepted
  rcases hrun : runCall (Stores.appendTurn k.zstd k.blake3 r now) s.stores d' fault with
    ⟨x, stores, d''⟩
  obtain rfl : x = .ok record := by rw [← hrecord, hrun]
  have hs : r.contextId ∉ ({ s with stores } : Store).contextMetadataCache := hvacant
  have hs' : r.contextId ∈ ({ s' with stores } : Store).contextMetadataCache := hcached
  simp only [hraw, Store.noted_cached hs', Store.noted_vacant hs, hmetadata]
  intro hresult
  have hreply := (StoreResult.call.inj hresult).1
  cases hreply

/-! ### Runs -/

/-- The calls that do not append. -/
theorem CachesMore.onStores (h : CachesMore m m') {α : Type} (x : StoreM Stores α)
    (fault : Option (Fault DataFile)) :
    (runCall (Cxdb.onStores x) m'.1 m'.2 fault).1 = (runCall (Cxdb.onStores x) m.1 m.2 fault).1 ∧
      CachesMore (runCall (Cxdb.onStores x) m.1 m.2 fault).2
        (runCall (Cxdb.onStores x) m'.1 m'.2 fault).2 := by
  rw [onStores_run, onStores_run, h.stores, h.files]
  exact ⟨rfl, rfl, rfl, h.indexes, h.cached⟩

/-- **The store with inserted reads follows the one without them.** -/
theorem StoreOp.simulation (k : Crates) (D : DateReader) :
    (storeSystem k D).Simulation CachesMore (StoreOp.Unspoilt k) where
  op := by
    intro m m' h o hunspoilt
    show (StoreOp.run k D o m').1 = (StoreOp.run k D o m).1 ∧
      CachesMore (StoreOp.run k D o m).2 (StoreOp.run k D o m').2
    cases o with
    | call c now fault =>
        cases c with
        | appendTurn r => exact h.appendTurn hunspoilt
        | _ =>
            exact ⟨congrArg callResult (h.onStores _ fault).1, (h.onStores _ fault).2⟩
    | getHead | getLast | getBefore | listRecentContexts | searchContexts
    | listContextsByLabel | childContextIds | descendantContextIds =>
        refine ⟨?_, h⟩
        simp only [StoreOp.run, Store.listContextsByLabel, h.stores, h.indexes, h.files]
  differs := by
    intro m m' h o hspoilt
    cases o with
    | call c now fault =>
        cases c with
        | appendTurn r => exact h.appendTurn_differs (D := D) hspoilt
        | _ => exact absurd trivial hspoilt
    | _ => exact absurd trivial hspoilt
  read h read := h.read read
  inserted h read := h.inserted read

/-- **Reads are observed** in the results of a run if and only if some append that the store
accepts, with metadata in its payload, finds its context in the cache, and would not find it
there without the inserted reads. -/
theorem metadata_reads_observed_iff (k : Crates) (D : DateReader) (m : Store × DataDir)
    (steps : List (Step StoreOp MetadataRead)) :
    (storeSystem k D).results true steps m = (storeSystem k D).results false steps m ↔
      (storeSystem k D).Guarded (StoreOp.Unspoilt k) steps m m :=
  (StoreOp.simulation k D).results_eq_iff ⟨rfl, rfl, rfl, fun _ => id⟩ steps

/-! ### A read before the first append -/

/-- An append of the tagged payload to a context. -/
def taggedAppend (contextId : UInt64) : AppendRequest :=
  { contextId, parentTurnId := 0, declaredTypeId := "t", declaredTypeVersion := 1,
    encoding := 1, compression := 0, uncompressedLen := 6, contentHash := taggedHash,
    payloadBytes := taggedPayload }

/-- No dates are known. -/
def timeless : DateReader :=
  { now := 0, parseFromRfc3339 := fun _ => none, parseDate := fun _ => none }

/-- A context is created, perhaps read, and then appended to. -/
def createReadAppend : List (Step StoreOp MetadataRead) :=
  [.op (.call (.createContext 0) 1 none), .read (.getContextMetadata 1) true,
    .op (.call (.appendTurn (taggedAppend 1)) 2 none),
    .op (.searchContexts "tag = \"a\"" ∅ none)]

/-- The metadata that a result shows. -/
def StoreResult.metadata : StoreResult → Option ContextMetadata
  | .call (.ok (_, metadata)) _ => metadata
  | _ => none

/-- The contexts that a result shows. -/
def StoreResult.contextIds : StoreResult → List UInt64
  | .found (.ok result) => result.contextIds
  | _ => []

/-- What can be seen of the results of a run of it. -/
def createReadAppendSeen (inserting : Bool) : List (Bool × List UInt64) :=
  ((storeSystem .plain timeless).results inserting createReadAppend
    (Store.empty, fun _ => [])).map fun result => (result.metadata.isSome, result.contextIds)

set_option maxRecDepth 8000 in
/-- Without the read, the append returns the metadata, and the search finds the context. -/
theorem createReadAppend_unread :
    createReadAppendSeen false = [(false, []), (true, []), (false, [1])] := by
  decide +kernel

set_option maxRecDepth 8000 in
/-- With it, they do not. -/
theorem createReadAppend_read :
    createReadAppendSeen true = [(false, []), (false, []), (false, [])] := by
  decide +kernel

/-- **A read before the first append** hides the metadata of the context. -/
theorem read_hides_metadata :
    (storeSystem .plain timeless).results true createReadAppend (Store.empty, fun _ => []) ≠
      (storeSystem .plain timeless).results false createReadAppend
        (Store.empty, fun _ => []) := by
  intro h
  have hseen : createReadAppendSeen true = createReadAppendSeen false :=
    congrArg (List.map _) h
  rw [createReadAppend_read, createReadAppend_unread] at hseen
  exact absurd hseen (by decide)

end Cxdb
