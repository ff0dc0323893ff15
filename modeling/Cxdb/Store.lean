import Mathlib.Data.Finset.Sort
import Cxdb.CqlParser
import Cxdb.IterationOrder
import Cxdb.MetadataExtraction
import Cxdb.StoreSystem

/-!
# The Store

`store.rs`: the three stores with the metadata cache and the secondary indexes, which live
in memory only. The first append to a context in the life of a process extracts the
metadata of the context from its payload; a read of the metadata of a context that is not
in the cache fills the cache too, from the first turn of the context's chain.

The external crates are parameters, collected in `Crates`. A `HashMap` or `HashSet` is
iterated in the order of its keys.
-/

open ByteFormat FaultyDisk

namespace Cxdb

/-- The crates that the server calls: Zstandard, BLAKE3, the Unicode tables of the standard
library and of `regex`, and the reader of msgpack. And the texts of I/O errors, which come
from the operating system. -/
structure Crates where
  zstd : Zstd
  blake3 : Bytes → Hash
  unicode : UnicodeTables
  readValue : MsgpackReader
  ioText : IoErrorKind → String

/-- The msgpack of `nil`, and its BLAKE3 hash. -/
def nilPayload : Bytes := [0xC0]

def nilHash : Hash :=
  ⟨[0xaf, 0x2e, 0xdc, 0x67, 0x41, 0x54, 0xff, 0x12, 0x9d, 0x9e, 0x82, 0x67, 0x27, 0xad, 0xa0,
    0x82, 0x8d, 0x3b, 0xa4, 0x80, 0x92, 0x4b, 0xbe, 0xd8, 0x4b, 0xf6, 0xdc, 0xae, 0x2e, 0x1f,
    0x1d, 0xb2], rfl⟩

/-- The msgpack of a map whose metadata is the client tag "a", and its BLAKE3 hash. -/
def taggedPayload : Bytes := [0x81, 0x1e, 0x81, 0x01, 0xa1, 0x61]

def taggedHash : Hash :=
  ⟨[0x56, 0x12, 0xb3, 0xd8, 0xfe, 0xa7, 0x93, 0x8c, 0x8c, 0x3a, 0x66, 0x01, 0x9e, 0x11, 0x38,
    0xee, 0x94, 0xaa, 0xa7, 0x11, 0x98, 0xe4, 0x38, 0x28, 0xb3, 0xf8, 0x94, 0x07, 0xb9, 0xef,
    0xab, 0x08], rfl⟩

/-- Crates that do what the real ones do on short ASCII texts, on these two payloads and on
the empty one. -/
def Crates.plain : Crates where
  zstd := rawBlockZstd
  blake3 raw :=
    if raw = nilPayload then nilHash
    else if raw = taggedPayload then taggedHash
    else emptyHash
  unicode := .ascii
  readValue raw :=
    if raw = nilPayload then some .nil
    else if raw = taggedPayload then
      some (.map [(.integer 30, .map [(.integer 1, .string (some "a"))])])
    else none
  ioText _ := "failed to fill whole buffer"

/-- `Store`; its files are in the data directory. -/
structure Store where
  stores : Stores
  contextMetadataCache : HashMap UInt64 (Option ContextMetadata)
  secondaryIndexes : SecondaryIndexes

variable (k : Crates)

/-- A call of the three stores. -/
def onStores {α : Type} (x : StoreM Stores α) : StoreM Store α :=
  zoom Store.stores (fun s stores => { s with stores }) x

/-! ### Metadata -/

/-- `load_context_metadata`. The loop of `get_first_turn` visits each turn once, unless the
parents form a cycle; then it does not end. -/
def Store.loadContextMetadata (s : Store) (pack : Bytes) (contextId : UInt64) :
    Option ContextMetadata :=
  match s.stores.turnStore.getFirstTurn (s.stores.turnStore.turns.keys.card + 1) contextId with
  | some (.ok firstTurn) =>
    match s.stores.blobStore.get k.zstd pack firstTurn.payloadHash with
    | .ok payload => extractContextMetadata k.readValue payload
    | .error _ => none
  | _ => none

/-- `get_context_metadata`, with the cache as it leaves it. -/
def Store.getContextMetadata (s : Store) (pack : Bytes) (contextId : UInt64) :
    Option ContextMetadata × Store :=
  match s.contextMetadataCache.lookup contextId with
  | some cached => (cached, s)
  | none =>
      let metadata := s.loadContextMetadata k pack contextId
      (metadata,
        { s with contextMetadataCache := s.contextMetadataCache.insert contextId metadata })

/-- `maybe_cache_metadata`. -/
def Store.maybeCacheMetadata (s : Store) (contextId : UInt64) (payload : Bytes) :
    Option ContextMetadata × Store :=
  match s.contextMetadataCache.lookup contextId with
  | some _ => (none, s)
  | none =>
      let metadata := extractContextMetadata k.readValue payload
      (metadata,
        { s with contextMetadataCache := s.contextMetadataCache.insert contextId metadata })

/-- What `append_turn` does with the cache and the indexes once the turn is appended. -/
def Store.noteFirst (s : Store) (contextId : UInt64) (payload : Bytes) (record : TurnRecord) :
    Except StoreError (Option ContextMetadata × Store) :=
  let (metadata, s) := s.maybeCacheMetadata k contextId payload
  if metadata.isSome then do
    let head ← s.stores.turnStore.getHead contextId
    return (metadata, { s with
      secondaryIndexes := s.secondaryIndexes.addContext k.unicode contextId metadata
        head.createdAtUnixMs record.depth })
  else return (metadata, s)

/-! ### Calls -/

/-- A step in memory that may fail, and then changes nothing. -/
def updateMem {μ α : Type} (f : μ → Except StoreError (α × μ)) : StoreM μ α := fun w =>
  match f w.mem with
  | .ok (a, m) => .ok a { w with mem := m }
  | .error e => .error e w

/-- `Store::append_turn`. -/
def Store.appendTurn (r : AppendRequest) (now : UInt64) :
    StoreM Store (TurnRecord × Option ContextMetadata) := do
  let rawBytes ← liftExcept (r.checked k.zstd k.blake3)
  let record ← onStores (Stores.appendTurn k.zstd k.blake3 r now)
  let metadata ← updateMem fun s => s.noteFirst k r.contextId rawBytes record
  return (record, metadata)

/-- `list_recent_contexts`. -/
def TurnStore.listRecentContexts (s : TurnStore) (limit : ℕ) : List ContextHead :=
  let contexts := (LastWrite.sortedKeys s.heads).filterMap s.heads.lookup
  (contexts.mergeSort fun a b => b.createdAtUnixMs ≤ a.createdAtUnixMs).take limit

/-- `build_indexes`. -/
def Store.buildIndexes (s : Store) (pack : Bytes) : Store :=
  let heads := s.stores.turnStore.listRecentContexts (2 ^ 32 - 1)
  let s := heads.foldl (fun s head => (s.getContextMetadata k pack head.contextId).2) s
  { s with
    secondaryIndexes :=
      s.secondaryIndexes.buildFromCache k.unicode s.contextMetadataCache heads }

/-- `Store::open`, with the files as it leaves them. -/
def Store.openDir (d : DataDir) : Except StoreError (Store × DataDir) := do
  let (stores, d) ← Stores.openDir d
  let s : Store :=
    { stores, contextMetadataCache := ∅, secondaryIndexes := SecondaryIndexes.new }
  return (s.buildIndexes k (d .blobsPack), d)

/-- The store of an empty directory. -/
def Store.empty : Store where
  stores :=
    { blobStore := { index := ∅ }
      turnStore :=
        { turns := ∅, turnIndex := ∅, turnMeta := ∅, heads := ∅, nextTurnId := 1,
          nextContextId := 1 }
      fsRoots := { roots := ∅ } }
  contextMetadataCache := ∅
  secondaryIndexes := SecondaryIndexes.new

/-- There is nothing to index in an empty store. -/
theorem Store.buildIndexes_empty (k : Crates) (pack : Bytes) :
    Store.empty.buildIndexes k pack = Store.empty := by
  have hkeys : LastWrite.sortedKeys (∅ : HashMap UInt64 (Option ContextMetadata)) = [] := by
    rfl
  have hheads : Store.empty.stores.turnStore.listRecentContexts (2 ^ 32 - 1) = [] := by
    have hempty : LastWrite.sortedKeys Store.empty.stores.turnStore.heads = [] := rfl
    rw [TurnStore.listRecentContexts, hempty]
    simp
  have hnew : SecondaryIndexes.new.sortIndexes = SecondaryIndexes.new := by
    simp [SecondaryIndexes.sortIndexes, SecondaryIndexes.new, StringIndex.sort, StringIndex.empty]
  rw [Store.buildIndexes, hheads]
  simp only [List.foldl_nil, SecondaryIndexes.buildFromCache]
  rw [show Store.empty.contextMetadataCache = ∅ from rfl, hkeys]
  exact congrArg (fun ix => { Store.empty with secondaryIndexes := ix }) hnew

/-- Opening an empty directory gives the empty store. -/
theorem Store.openDir_empty (k : Crates) :
    ∃ d, Store.openDir k (fun _ => []) = .ok (Store.empty, d) := by
  obtain ⟨d, hd⟩ : ∃ d, Stores.openDir (fun _ => []) = .ok (Store.empty.stores, d) := ⟨_, rfl⟩
  refine ⟨d, ?_⟩
  rw [Store.openDir, hd]
  exact congrArg (fun s => Except.ok (s, d)) (Store.buildIndexes_empty k (d .blobsPack))

/-! ### Reads of the indexes -/

/-- The contexts with a label, newest first. -/
def Store.listContextsByLabel (s : Store) (label : String) (limit : UInt32) :
    List ContextHead :=
  let matching := (s.secondaryIndexes.lookupLabelExact label).sort (· ≤ ·)
  let heads := matching.filterMap fun id => (s.stores.turnStore.getHead id).toOption
  (heads.mergeSort fun a b => b.createdAtUnixMs ≤ a.createdAtUnixMs).take limit.toNat

/-- `child_context_ids`. -/
def SecondaryIndexes.childContextIds (ix : SecondaryIndexes) (parentContextId : UInt64) :
    List UInt64 :=
  (ix.lookupParentExact parentContextId).sort (· ≥ ·)

/-- The contexts that `descendant_context_ids` can still come to. -/
def SecondaryIndexes.reachable (ix : SecondaryIndexes) (queue : List UInt64)
    (visited : Finset UInt64) : Finset UInt64 :=
  (ix.parentExact.range (fun _ => true) ∪ queue.toFinset) \ visited

/-- A child is in the index. -/
theorem SecondaryIndexes.mem_range_of_child {ix : SecondaryIndexes} {parent id : UInt64}
    (h : id ∈ ix.childContextIds parent) : id ∈ ix.parentExact.range (fun _ => true) := by
  rw [childContextIds, Finset.mem_sort] at h
  exact SetMap.mem_range.mpr ⟨parent, rfl, h⟩

/-- The loop of `descendant_context_ids`. -/
def SecondaryIndexes.descend (ix : SecondaryIndexes) (limit : Option UInt32) :
    List UInt64 → Finset UInt64 → List UInt64 → List UInt64
  | [], _, out => out
  | contextId :: queue, visited, out =>
      if contextId ∈ visited then ix.descend limit queue visited out
      else
        let visited' := insert contextId visited
        let out := out ++ [contextId]
        if limit.any fun max => decide (max.toNat ≤ out.length) then out
        else
          ix.descend limit
            (queue ++ (ix.childContextIds contextId).filter fun child => child ∉ visited')
            visited' out
termination_by queue visited => ((ix.reachable queue visited).card, queue.length)
decreasing_by
  · have hsub : ix.reachable queue visited ⊆ ix.reachable (contextId :: queue) visited := by
      intro id hid
      simp only [reachable, Finset.mem_sdiff, Finset.mem_union, List.toFinset_cons,
        Finset.mem_insert] at hid ⊢
      tauto
    rcases (Finset.card_le_card hsub).lt_or_eq with hlt | heq
    · exact Prod.Lex.left _ _ hlt
    · rw [heq]
      exact Prod.Lex.right _ (by simp)
  · rename_i hmem _
    refine Prod.Lex.left _ _ (Finset.card_lt_card ?_)
    refine Finset.ssubset_iff_subset_ne.mpr ⟨?_, ?_⟩
    · intro id hid
      simp only [reachable, Finset.mem_sdiff, Finset.mem_union, List.toFinset_append,
        List.toFinset_cons, Finset.mem_insert, List.mem_toFinset, List.mem_filter] at hid ⊢
      obtain ⟨hid, hvisited⟩ := hid
      refine ⟨?_, fun h => hvisited (Or.inr h)⟩
      rcases hid with hrange | hqueue | hchild
      · exact Or.inl hrange
      · exact Or.inr (Or.inr hqueue)
      · exact Or.inl (mem_range_of_child hchild.1)
    · intro heq
      have hfirst : contextId ∈ ix.reachable (contextId :: queue) visited := by
        simp [reachable, hmem]
      rw [← heq] at hfirst
      simp [reachable] at hfirst

/-- `descendant_context_ids`. -/
def SecondaryIndexes.descendantContextIds (ix : SecondaryIndexes) (parentContextId : UInt64)
    (limit : Option UInt32) : List UInt64 :=
  (ix.descend limit (ix.childContextIds parentContextId) ∅ []).mergeSort fun a b => b ≤ a

/-- `SearchResult`, without the time it took. -/
structure SearchResult where
  contextIds : List UInt64
  totalCount : ℕ
  query : CqlQuery

/-- `search_contexts`. -/
def SecondaryIndexes.searchContexts (U : UnicodeTables) (D : DateReader)
    (ix : SecondaryIndexes) (query : String) (liveContexts : Finset UInt64)
    (limit : Option UInt32) : Except CqlError SearchResult := do
  let parsed ← parse U query
  let matching ← execute U D parsed.ast ix liveContexts
  let sortedIds := matching.sort (· ≥ ·)
  return {
    contextIds := limit.elim sortedIds fun limit => sortedIds.take limit.toNat
    totalCount := sortedIds.length
    query := parsed }

end Cxdb
