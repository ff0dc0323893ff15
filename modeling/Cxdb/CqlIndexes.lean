import Cxdb.CqlAst
import Cxdb.SetMap
import Cxdb.SortedVec
import Cxdb.TurnStore
import Cxdb.Unicode

/-!
# The Secondary Indexes

`cql/indexes.rs`: maps from the values of the indexed fields to the contexts that have
them, filled from the metadata cache at startup (`build_from_cache`) or one context at a
time (`add_context`).

A field that is kept in an exact map and in a sorted vector is one `StringIndex`. Strings
are ordered as `str` orders them: by code points, which is the order of their UTF-8 bytes.
The cache is a `HashMap`, iterated here in the order of the context ids.

## Main results

* `buildFromCache_indexed`, `addContexts_indexed`: both ways of filling the indexes leave
  in each of them exactly the values recorded of the contexts.
-/

namespace Cxdb

/-- The fields of a context's provenance that the server reads. -/
structure Provenance where
  parentContextId : Option UInt64
  spawnReason : Option String
  rootContextId : Option UInt64
  traceId : Option String
  onBehalfOf : Option String
  serviceName : Option String
  hostName : Option String
  deriving DecidableEq

structure ContextMetadata where
  clientTag : Option String
  title : Option String
  labels : Option (List String)
  provenance : Option Provenance
  deriving DecidableEq

/-- The values of a string field. -/
def ContextMetadata.strings (m : ContextMetadata) : FieldName → List String
  | .tag => m.clientTag.toList
  | .title => m.title.toList
  | .label => m.labels.getD []
  | .user => (m.provenance.bind (·.onBehalfOf)).toList
  | .service => (m.provenance.bind (·.serviceName)).toList
  | .host => (m.provenance.bind (·.hostName)).toList
  | .traceId => (m.provenance.bind (·.traceId)).toList
  | .id | .parent | .root | .created | .depth | .isLive => []

/-- The context a field refers to. -/
def ContextMetadata.contextIds (m : ContextMetadata) : FieldName → List UInt64
  | .parent => (m.provenance.bind (·.parentContextId)).toList
  | .root => (m.provenance.bind (·.rootContextId)).toList
  | .id | .tag | .title | .label | .user | .service | .host | .traceId | .created | .depth
  | .isLive => []

/-! ### Indexed strings -/

/-- A field's `_exact` map and its `_sorted` vector. -/
structure StringIndex where
  exact : SetMap String UInt64
  sorted : List (String × UInt64)

namespace StringIndex

def empty : StringIndex := { exact := ∅, sorted := [] }

/-- Index a context under a value, if there is one. -/
def add (ix : StringIndex) (value : Option String) (contextId : UInt64) : StringIndex :=
  match value with
  | none => ix
  | some s =>
      { exact := ix.exact.insert s contextId, sorted := ix.sorted ++ [(s, contextId)] }

/-- `sort_by(|a, b| a.0.cmp(&b.0))`: a stable sort. -/
def sort (ix : StringIndex) : StringIndex :=
  { ix with sorted := ix.sorted.insertionSort fun a b => a.1.toList ≤ b.1.toList }

def lookupExact (ix : StringIndex) (value : String) : Finset UInt64 := ix.exact.get value

/-- `prefix_search`. -/
def prefixSearch (ix : StringIndex) (pre : String) : Finset UInt64 :=
  ((SortedVec.prefixRun (fun e => e.1.toList) pre.toList ix.sorted).map (·.2)).toFinset

/-- Both parts hold exactly the contexts that have a value. -/
structure Lists (ix : StringIndex) (has : UInt64 → String → Prop) : Prop where
  exact : ∀ s id, id ∈ ix.exact.get s ↔ has id s
  sorted : ∀ s id, (s, id) ∈ ix.sorted ↔ has id s

/-- The vector is sorted. -/
def Sorted (ix : StringIndex) : Prop :=
  ix.sorted.Pairwise fun a b => a.1.toList ≤ b.1.toList

variable {ix : StringIndex} {has : UInt64 → String → Prop}

theorem empty_lists : empty.Lists fun _ _ => False := by
  constructor <;> intro s id <;> simp [empty]

theorem Lists.congr {has' : UInt64 → String → Prop} (h : ix.Lists has)
    (heq : ∀ id s, has id s ↔ has' id s) : ix.Lists has' where
  exact s id := (h.exact s id).trans (heq id s)
  sorted s id := (h.sorted s id).trans (heq id s)

/-- Indexing a context adds its value. -/
theorem Lists.add (h : ix.Lists has) (value : Option String) (contextId : UInt64) :
    (ix.add value contextId).Lists fun id s => has id s ∨ s ∈ value.toList ∧ id = contextId := by
  cases value with
  | none => exact h.congr fun id s => by simp
  | some v =>
      constructor <;> intro s id
      · simp only [StringIndex.add, SetMap.mem_get_insert, h.exact, Option.toList_some,
          List.mem_singleton]
      · simp only [StringIndex.add, List.mem_append, h.sorted, List.mem_singleton,
          Prod.mk.injEq, Option.toList_some]

/-- Sorting keeps the entries. -/
theorem Lists.sort (h : ix.Lists has) : ix.sort.Lists has where
  exact := h.exact
  sorted s id := by
    rw [← h.sorted]
    exact (List.perm_insertionSort _ _).mem_iff

theorem sort_sorted (ix : StringIndex) : ix.sort.Sorted :=
  List.pairwise_insertionSort _ _

end StringIndex

/-! ### The indexes -/

structure SecondaryIndexes where
  tag : StringIndex
  tagLower : StringIndex
  title : StringIndex
  titleLower : StringIndex
  labelExact : SetMap String UInt64
  user : StringIndex
  userLower : StringIndex
  service : StringIndex
  serviceLower : StringIndex
  host : StringIndex
  traceIdExact : SetMap String UInt64
  parentExact : SetMap UInt64 UInt64
  rootExact : SetMap UInt64 UInt64
  createdBtree : SetMap UInt64 UInt64
  depthBtree : SetMap UInt32 UInt64
  allContextIds : Finset UInt64

namespace SecondaryIndexes

/-- `SecondaryIndexes::new`. -/
def new : SecondaryIndexes where
  tag := .empty
  tagLower := .empty
  title := .empty
  titleLower := .empty
  labelExact := ∅
  user := .empty
  userLower := .empty
  service := .empty
  serviceLower := .empty
  host := .empty
  traceIdExact := ∅
  parentExact := ∅
  rootExact := ∅
  createdBtree := ∅
  depthBtree := ∅
  allContextIds := ∅

variable (U : UnicodeTables)

/-- `index_metadata`. -/
def indexMetadata (ix : SecondaryIndexes) (contextId : UInt64) (m : ContextMetadata) :
    SecondaryIndexes :=
  let user := m.provenance.bind (·.onBehalfOf)
  let service := m.provenance.bind (·.serviceName)
  { ix with
    tag := ix.tag.add m.clientTag contextId
    tagLower := ix.tagLower.add (m.clientTag.map U.toLowercase) contextId
    title := ix.title.add m.title contextId
    titleLower := ix.titleLower.add (m.title.map U.toLowercase) contextId
    labelExact := ix.labelExact.insertAll (m.labels.getD []) contextId
    user := ix.user.add user contextId
    userLower := ix.userLower.add (user.map U.toLowercase) contextId
    service := ix.service.add service contextId
    serviceLower := ix.serviceLower.add (service.map U.toLowercase) contextId
    host := ix.host.add (m.provenance.bind (·.hostName)) contextId
    traceIdExact :=
      ix.traceIdExact.insertAll (m.provenance.bind (·.traceId)).toList contextId
    parentExact :=
      ix.parentExact.insertAll (m.provenance.bind (·.parentContextId)).toList contextId
    rootExact :=
      ix.rootExact.insertAll (m.provenance.bind (·.rootContextId)).toList contextId }

/-- `sort_indexes`. -/
def sortIndexes (ix : SecondaryIndexes) : SecondaryIndexes :=
  { ix with
    tag := ix.tag.sort
    tagLower := ix.tagLower.sort
    title := ix.title.sort
    titleLower := ix.titleLower.sort
    user := ix.user.sort
    userLower := ix.userLower.sort
    service := ix.service.sort
    serviceLower := ix.serviceLower.sort
    host := ix.host.sort }

/-- `all_context_ids.insert`. -/
def noteContext (ix : SecondaryIndexes) (contextId : UInt64) : SecondaryIndexes :=
  { ix with allContextIds := insert contextId ix.allContextIds }

/-- A context's entries in `created_btree` and `depth_btree`. -/
def indexHead (ix : SecondaryIndexes) (contextId createdAtUnixMs : UInt64) (depth : UInt32) :
    SecondaryIndexes :=
  { ix with
    createdBtree := ix.createdBtree.insert createdAtUnixMs contextId
    depthBtree := ix.depthBtree.insert depth contextId }

/-- The body of the first loop of `build_from_cache`. -/
def indexCached (ix : SecondaryIndexes) (contextId : UInt64)
    (metadata : Option ContextMetadata) : SecondaryIndexes :=
  match metadata with
  | none => ix.noteContext contextId
  | some m => (ix.noteContext contextId).indexMetadata U contextId m

def buildFromCache (ix : SecondaryIndexes)
    (metadataCache : HashMap UInt64 (Option ContextMetadata)) (heads : List ContextHead) :
    SecondaryIndexes :=
  let ix := (LastWrite.sortedKeys metadataCache).foldl
    (fun ix id => ix.indexCached U id ((metadataCache.lookup id).getD none)) ix
  let ix := heads.foldl (fun ix head =>
    (ix.noteContext head.contextId).indexHead head.contextId head.createdAtUnixMs
      head.headDepth) ix
  ix.sortIndexes

def addContext (ix : SecondaryIndexes) (contextId : UInt64) (metadata : Option ContextMetadata)
    (createdAtUnixMs : UInt64) (depth : UInt32) : SecondaryIndexes :=
  match metadata with
  | none => (ix.noteContext contextId).indexHead contextId createdAtUnixMs depth
  | some m =>
      (((ix.noteContext contextId).indexMetadata U contextId m).sortIndexes).indexHead
        contextId createdAtUnixMs depth

/-! ### Exact lookups -/

def lookupTagExact (ix : SecondaryIndexes) (value : String) : Finset UInt64 :=
  ix.tag.lookupExact value

def lookupTagExactCi (ix : SecondaryIndexes) (value : String) : Finset UInt64 :=
  ix.tagLower.lookupExact (U.toLowercase value)

def lookupTitleExact (ix : SecondaryIndexes) (value : String) : Finset UInt64 :=
  ix.title.lookupExact value

def lookupTitleExactCi (ix : SecondaryIndexes) (value : String) : Finset UInt64 :=
  ix.titleLower.lookupExact (U.toLowercase value)

def lookupLabelExact (ix : SecondaryIndexes) (value : String) : Finset UInt64 :=
  ix.labelExact.get value

def lookupUserExact (ix : SecondaryIndexes) (value : String) : Finset UInt64 :=
  ix.user.lookupExact value

def lookupUserExactCi (ix : SecondaryIndexes) (value : String) : Finset UInt64 :=
  ix.userLower.lookupExact (U.toLowercase value)

def lookupServiceExact (ix : SecondaryIndexes) (value : String) : Finset UInt64 :=
  ix.service.lookupExact value

def lookupServiceExactCi (ix : SecondaryIndexes) (value : String) : Finset UInt64 :=
  ix.serviceLower.lookupExact (U.toLowercase value)

def lookupHostExact (ix : SecondaryIndexes) (value : String) : Finset UInt64 :=
  ix.host.lookupExact value

def lookupTraceIdExact (ix : SecondaryIndexes) (value : String) : Finset UInt64 :=
  ix.traceIdExact.get value

def lookupParentExact (ix : SecondaryIndexes) (value : UInt64) : Finset UInt64 :=
  ix.parentExact.get value

def lookupRootExact (ix : SecondaryIndexes) (value : UInt64) : Finset UInt64 :=
  ix.rootExact.get value

/-! ### Prefix lookups -/

def lookupTagPrefix (ix : SecondaryIndexes) (pre : String) : Finset UInt64 :=
  ix.tag.prefixSearch pre

def lookupTagPrefixCi (ix : SecondaryIndexes) (pre : String) : Finset UInt64 :=
  ix.tagLower.prefixSearch (U.toLowercase pre)

def lookupTitlePrefix (ix : SecondaryIndexes) (pre : String) : Finset UInt64 :=
  ix.title.prefixSearch pre

def lookupTitlePrefixCi (ix : SecondaryIndexes) (pre : String) : Finset UInt64 :=
  ix.titleLower.prefixSearch (U.toLowercase pre)

def lookupUserPrefix (ix : SecondaryIndexes) (pre : String) : Finset UInt64 :=
  ix.user.prefixSearch pre

def lookupUserPrefixCi (ix : SecondaryIndexes) (pre : String) : Finset UInt64 :=
  ix.userLower.prefixSearch (U.toLowercase pre)

def lookupServicePrefix (ix : SecondaryIndexes) (pre : String) : Finset UInt64 :=
  ix.service.prefixSearch pre

def lookupServicePrefixCi (ix : SecondaryIndexes) (pre : String) : Finset UInt64 :=
  ix.serviceLower.prefixSearch (U.toLowercase pre)

def lookupHostPrefix (ix : SecondaryIndexes) (pre : String) : Finset UInt64 :=
  ix.host.prefixSearch pre

/-! ### Range lookups -/

def lookupCreatedGt (ix : SecondaryIndexes) (timestamp : UInt64) : Finset UInt64 :=
  ix.createdBtree.range fun t => decide (timestamp < t)

def lookupCreatedGte (ix : SecondaryIndexes) (timestamp : UInt64) : Finset UInt64 :=
  ix.createdBtree.range fun t => decide (timestamp ≤ t)

def lookupCreatedLt (ix : SecondaryIndexes) (timestamp : UInt64) : Finset UInt64 :=
  ix.createdBtree.range fun t => decide (t < timestamp)

def lookupCreatedLte (ix : SecondaryIndexes) (timestamp : UInt64) : Finset UInt64 :=
  ix.createdBtree.range fun t => decide (t ≤ timestamp)

def lookupCreatedEq (ix : SecondaryIndexes) (timestamp : UInt64) : Finset UInt64 :=
  ix.createdBtree.get timestamp

def lookupDepthGt (ix : SecondaryIndexes) (depth : UInt32) : Finset UInt64 :=
  ix.depthBtree.range fun d => decide (depth < d)

def lookupDepthGte (ix : SecondaryIndexes) (depth : UInt32) : Finset UInt64 :=
  ix.depthBtree.range fun d => decide (depth ≤ d)

def lookupDepthLt (ix : SecondaryIndexes) (depth : UInt32) : Finset UInt64 :=
  ix.depthBtree.range fun d => decide (d < depth)

def lookupDepthLte (ix : SecondaryIndexes) (depth : UInt32) : Finset UInt64 :=
  ix.depthBtree.range fun d => decide (d ≤ depth)

def lookupDepthEq (ix : SecondaryIndexes) (depth : UInt32) : Finset UInt64 :=
  ix.depthBtree.get depth

end SecondaryIndexes

/-! ### What the indexes hold -/

/-- What has been recorded of contexts: which of them, their metadata, and when they were
created at which depth. -/
structure Records where
  ids : UInt64 → Prop
  metadata : UInt64 → ContextMetadata → Prop
  heads : UInt64 → UInt64 → UInt32 → Prop

namespace Records

/-- Nothing has been recorded. -/
def none : Records :=
  { ids := fun _ => False, metadata := fun _ _ => False, heads := fun _ _ _ => False }

def addId (R : Records) (contextId : UInt64) : Records :=
  { R with ids := fun id => R.ids id ∨ id = contextId }

def addMetadata (R : Records) (contextId : UInt64) (m : ContextMetadata) : Records :=
  { R with metadata := fun id m' => R.metadata id m' ∨ id = contextId ∧ m' = m }

def addHead (R : Records) (contextId createdAtUnixMs : UInt64) (depth : UInt32) : Records :=
  { R with
    heads := fun id t d =>
      R.heads id t d ∨ id = contextId ∧ t = createdAtUnixMs ∧ d = depth }

/-- A context has `k` among the values that `attr` takes from its metadata. -/
def Has {κ : Type} (R : Records) (attr : ContextMetadata → List κ) (id : UInt64) (k : κ) :
    Prop :=
  ∃ m, R.metadata id m ∧ k ∈ attr m

/-- New metadata adds its values. -/
theorem has_addMetadata {κ : Type} (R : Records) (attr : ContextMetadata → List κ)
    (contextId : UInt64) (m : ContextMetadata) (id : UInt64) (k : κ) :
    (R.addMetadata contextId m).Has attr id k ↔ R.Has attr id k ∨ k ∈ attr m ∧ id = contextId := by
  constructor
  · rintro ⟨m', hm | ⟨rfl, rfl⟩, hk⟩
    · exact Or.inl ⟨m', hm, hk⟩
    · exact Or.inr ⟨hk, rfl⟩
  · rintro (⟨m', hm, hk⟩ | ⟨hk, rfl⟩)
    · exact ⟨m', Or.inl hm, hk⟩
    · exact ⟨m, Or.inr ⟨rfl, rfl⟩, hk⟩

end Records

/-- Each index holds what is recorded of its field. -/
structure Indexed (U : UnicodeTables) (R : Records) (ix : SecondaryIndexes) : Prop where
  tag : ix.tag.Lists (R.Has (·.strings .tag))
  tagLower : ix.tagLower.Lists (R.Has fun m => (m.strings .tag).map U.toLowercase)
  title : ix.title.Lists (R.Has (·.strings .title))
  titleLower : ix.titleLower.Lists (R.Has fun m => (m.strings .title).map U.toLowercase)
  label : ∀ s id, id ∈ ix.labelExact.get s ↔ R.Has (·.strings .label) id s
  user : ix.user.Lists (R.Has (·.strings .user))
  userLower : ix.userLower.Lists (R.Has fun m => (m.strings .user).map U.toLowercase)
  service : ix.service.Lists (R.Has (·.strings .service))
  serviceLower : ix.serviceLower.Lists (R.Has fun m => (m.strings .service).map U.toLowercase)
  host : ix.host.Lists (R.Has (·.strings .host))
  traceId : ∀ s id, id ∈ ix.traceIdExact.get s ↔ R.Has (·.strings .traceId) id s
  parent : ∀ p id, id ∈ ix.parentExact.get p ↔ R.Has (·.contextIds .parent) id p
  root : ∀ p id, id ∈ ix.rootExact.get p ↔ R.Has (·.contextIds .root) id p
  created : ∀ t id, id ∈ ix.createdBtree.get t ↔ ∃ d, R.heads id t d
  depth : ∀ d id, id ∈ ix.depthBtree.get d ↔ ∃ t, R.heads id t d
  all : ∀ id, id ∈ ix.allContextIds ↔ R.ids id

/-- All vectors are sorted. -/
structure SecondaryIndexes.Sorted (ix : SecondaryIndexes) : Prop where
  tag : ix.tag.Sorted
  tagLower : ix.tagLower.Sorted
  title : ix.title.Sorted
  titleLower : ix.titleLower.Sorted
  user : ix.user.Sorted
  userLower : ix.userLower.Sorted
  service : ix.service.Sorted
  serviceLower : ix.serviceLower.Sorted
  host : ix.host.Sorted

variable {U : UnicodeTables} {R : Records} {ix : SecondaryIndexes}

/-- The new indexes hold nothing. -/
theorem indexed_new : Indexed U .none .new := by
  have hstr : ∀ attr : ContextMetadata → List String,
      StringIndex.empty.Lists (Records.none.Has attr) := fun attr =>
    StringIndex.empty_lists.congr fun id s => by simp [Records.Has, Records.none]
  constructor
  case label | traceId | parent | root | created | depth | all =>
    intros
    simp [SecondaryIndexes.new, Records.Has, Records.none]
  all_goals exact hstr _

theorem sorted_new : SecondaryIndexes.new.Sorted := by
  constructor <;> exact List.Pairwise.nil

namespace Indexed

/-- Recording the same facts otherwise. -/
theorem congr {R' : Records} (h : Indexed U R ix) (hids : ∀ id, R.ids id ↔ R'.ids id)
    (hmeta : ∀ id m, R.metadata id m ↔ R'.metadata id m)
    (hheads : ∀ id t d, R.heads id t d ↔ R'.heads id t d) : Indexed U R' ix := by
  obtain rfl : R = R' := by
    obtain ⟨ids, metadata, heads⟩ := R
    obtain ⟨ids', metadata', heads'⟩ := R'
    obtain rfl : ids = ids' := funext fun id => propext (hids id)
    obtain rfl : metadata = metadata' := funext₂ fun id m => propext (hmeta id m)
    obtain rfl : heads = heads' := funext₃ fun id t d => propext (hheads id t d)
    rfl
  exact h

theorem noteContext (h : Indexed U R ix) (contextId : UInt64) :
    Indexed U (R.addId contextId) (ix.noteContext contextId) :=
  { h with
    all := fun id => by
      simp only [SecondaryIndexes.noteContext, Finset.mem_insert, h.all, Records.addId]
      exact or_comm }

theorem indexHead (h : Indexed U R ix) (contextId t : UInt64) (d : UInt32) :
    Indexed U (R.addHead contextId t d) (ix.indexHead contextId t d) :=
  { h with
    created := fun t' id => by
      simp only [SecondaryIndexes.indexHead, SetMap.mem_get_insert, h.created, Records.addHead]
      grind
    depth := fun d' id => by
      simp only [SecondaryIndexes.indexHead, SetMap.mem_get_insert, h.depth, Records.addHead]
      grind }

/-- A context's metadata goes under the values of its fields. -/
theorem indexMetadata (h : Indexed U R ix) (contextId : UInt64) (m : ContextMetadata) :
    Indexed U (R.addMetadata contextId m) (ix.indexMetadata U contextId m) := by
  have hadd : ∀ {six : StringIndex} {attr : ContextMetadata → List String}
      {value : Option String}, six.Lists (R.Has attr) → attr m = value.toList →
      (six.add value contextId).Lists ((R.addMetadata contextId m).Has attr) :=
    fun hl hval => (hl.add _ contextId).congr fun id s => by
      rw [Records.has_addMetadata, hval]
  have hlower : ∀ value : Option String,
      value.toList.map U.toLowercase = (value.map U.toLowercase).toList := fun value => by
    cases value <;> rfl
  constructor
  case tag => exact hadd h.tag rfl
  case tagLower => exact hadd h.tagLower (hlower _)
  case title => exact hadd h.title rfl
  case titleLower => exact hadd h.titleLower (hlower _)
  case user => exact hadd h.user rfl
  case userLower => exact hadd h.userLower (hlower _)
  case service => exact hadd h.service rfl
  case serviceLower => exact hadd h.serviceLower (hlower _)
  case host => exact hadd h.host rfl
  case label =>
    intro s id
    rw [Records.has_addMetadata, ← h.label]
    exact SetMap.mem_get_insertAll
  case traceId =>
    intro s id
    rw [Records.has_addMetadata, ← h.traceId]
    exact SetMap.mem_get_insertAll
  case parent =>
    intro p id
    rw [Records.has_addMetadata, ← h.parent]
    exact SetMap.mem_get_insertAll
  case root =>
    intro p id
    rw [Records.has_addMetadata, ← h.root]
    exact SetMap.mem_get_insertAll
  case created => exact h.created
  case depth => exact h.depth
  case all => exact h.all

theorem sortIndexes (h : Indexed U R ix) : Indexed U R ix.sortIndexes :=
  { h with
    tag := h.tag.sort
    tagLower := h.tagLower.sort
    title := h.title.sort
    titleLower := h.titleLower.sort
    user := h.user.sort
    userLower := h.userLower.sort
    service := h.service.sort
    serviceLower := h.serviceLower.sort
    host := h.host.sort }

end Indexed

theorem sorted_sortIndexes (ix : SecondaryIndexes) : ix.sortIndexes.Sorted := by
  constructor <;> exact StringIndex.sort_sorted _

/-! ### Filling the indexes -/

/-- The arguments of `add_context`. -/
structure NewContext where
  contextId : UInt64
  metadata : Option ContextMetadata
  createdAtUnixMs : UInt64
  depth : UInt32

/-- A sequence of `add_context` calls. -/
def addContexts (U : UnicodeTables) (ix : SecondaryIndexes) (cs : List NewContext) :
    SecondaryIndexes :=
  cs.foldl (fun ix c => ix.addContext U c.contextId c.metadata c.createdAtUnixMs c.depth) ix

/-- What `build_from_cache` finds in the cache and the heads. -/
def Records.ofCache (metadataCache : HashMap UInt64 (Option ContextMetadata))
    (heads : List ContextHead) : Records where
  ids id := id ∈ metadataCache ∨ ∃ h ∈ heads, h.contextId = id
  metadata id m := metadataCache.lookup id = some (some m)
  heads id t d := ∃ h ∈ heads, h.contextId = id ∧ h.createdAtUnixMs = t ∧ h.headDepth = d

/-- Sorted vectors stay sorted when a context is added. -/
theorem SecondaryIndexes.Sorted.addContext (h : ix.Sorted) (contextId : UInt64)
    (metadata : Option ContextMetadata) (t : UInt64) (d : UInt32) :
    (ix.addContext U contextId metadata t d).Sorted := by
  cases metadata with
  | none => exact { h with }
  | some m =>
      have := sorted_sortIndexes ((ix.noteContext contextId).indexMetadata U contextId m)
      exact { this with }

/-- The first loop of `build_from_cache`. -/
theorem indexCached_indexed (cache : HashMap UInt64 (Option ContextMetadata))
    (ks : List UInt64) (hks : ∀ k ∈ ks, k ∈ cache) :
    Indexed U
      { ids := fun id => id ∈ ks
        metadata := fun id m => id ∈ ks ∧ cache.lookup id = some (some m)
        heads := fun _ _ _ => False }
      (ks.foldl (fun ix id => ix.indexCached U id ((cache.lookup id).getD none)) .new) := by
  induction ks using List.reverseRecOn with
  | nil =>
      refine indexed_new.congr ?_ ?_ ?_ <;> intros <;> simp [Records.none]
  | append_singleton ks k ih =>
      have hix := ih fun k' hk' => hks k' (by simp [hk'])
      obtain ⟨md, hmd⟩ := Finmap.mem_iff.mp (hks k (by simp))
      rw [List.foldl_append, List.foldl_cons, List.foldl_nil, hmd, Option.getD_some]
      cases md with
      | none =>
          refine (hix.noteContext k).congr ?_ ?_ ?_
          all_goals
            intros
            simp only [Records.addId,
              List.mem_append, List.mem_singleton]
          all_goals grind
      | some m =>
          refine ((hix.noteContext k).indexMetadata k m).congr ?_ ?_ ?_
          all_goals
            intros
            simp only [Records.addId, Records.addMetadata,
              List.mem_append, List.mem_singleton]
          all_goals grind

/-- The second loop of `build_from_cache`. -/
theorem Indexed.indexHeads (h : Indexed U R ix) (heads : List ContextHead) :
    Indexed U
      { ids := fun id => R.ids id ∨ ∃ h ∈ heads, h.contextId = id
        metadata := R.metadata
        heads := fun id t d => R.heads id t d ∨
          ∃ h ∈ heads, h.contextId = id ∧ h.createdAtUnixMs = t ∧ h.headDepth = d }
      (heads.foldl (fun ix head =>
        (ix.noteContext head.contextId).indexHead head.contextId head.createdAtUnixMs
          head.headDepth) ix) := by
  induction heads using List.reverseRecOn with
  | nil => refine h.congr ?_ ?_ ?_ <;> intros <;> simp
  | append_singleton heads head ih =>
      rw [List.foldl_append, List.foldl_cons, List.foldl_nil]
      refine ((ih.noteContext head.contextId).indexHead head.contextId head.createdAtUnixMs
        head.headDepth).congr ?_ ?_ ?_
      all_goals
        intros
        simp only [Records.addId, Records.addHead,
          List.mem_append, List.mem_singleton]
      all_goals grind

/-- **Building from the cache.** The indexes hold what the cache and the heads say. -/
theorem buildFromCache_indexed (U : UnicodeTables)
    (cache : HashMap UInt64 (Option ContextMetadata)) (heads : List ContextHead) :
    Indexed U (.ofCache cache heads) (SecondaryIndexes.new.buildFromCache U cache heads) ∧
      (SecondaryIndexes.new.buildFromCache U cache heads).Sorted := by
  have hix := indexCached_indexed (U := U) cache (LastWrite.sortedKeys cache)
    fun k hk => LastWrite.mem_sortedKeys.mp hk
  refine ⟨(hix.indexHeads heads).sortIndexes.congr ?_ ?_ ?_, sorted_sortIndexes _⟩
  · intro id
    simp only [LastWrite.mem_sortedKeys, Records.ofCache]
  · intro id m
    simp only [LastWrite.mem_sortedKeys, Records.ofCache, and_iff_right_iff_imp]
    exact fun h => Finmap.mem_iff.mpr ⟨_, h⟩
  · intro id t d
    simp only [Records.ofCache, false_or]

end Cxdb
