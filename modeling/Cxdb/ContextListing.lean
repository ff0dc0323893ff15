import Cxdb.IndexStates
import Cxdb.RecentFirst

/-!
# Listings of Contexts

`GET /v1/contexts` lists the newest contexts, or those with a label. A filter by client tag is
applied to the listing, after it was cut off at its limit; the filter by label is applied to the
index, before. The tag of a context is that of its metadata, or else that of the session that
created it, while it is connected.

## Main results

* `getContexts_recent`: what the handler makes of the newest contexts.
* `tag_listing_right_iff`: when a listing with a tag has the newest contexts that match it.
* `newer_context_hides_tag`: a newer context with another tag hides the only one that matches.
-/

open ByteFormat FaultyDisk RecentFirst

namespace Cxdb

/-! ### The JSON of a context -/

/-- The session of a context, while it is connected. -/
def SessionTracker.getSessionForContext (t : SessionTracker) (contextId : UInt64) :
    Option ClientSession := do
  let sessionId ← t.contextToSession.lookup contextId
  t.sessions.lookup sessionId

/-- The object that `context_to_json` makes, without provenance and lineage. -/
structure ContextInfo where
  contextId : UInt64
  headTurnId : UInt64
  headDepth : UInt32
  createdAtUnixMs : UInt64
  isLive : Bool
  clientTag : Option String
  sessionId : Option UInt64
  lastActivityAt : Option UInt64
  title : Option String
  labels : Option (List String)
  deriving DecidableEq

/-- The object of a context, from its head, its session and its metadata. -/
def ContextHead.info (head : ContextHead) (session : Option ClientSession)
    (metadata : Option ContextMetadata) : ContextInfo where
  contextId := head.contextId
  headTurnId := head.headTurnId
  headDepth := head.headDepth
  createdAtUnixMs := head.createdAtUnixMs
  isLive := session.isSome
  clientTag :=
    ((metadata.bind (·.clientTag)).or (session.map (·.clientTag))).filter (· ≠ "")
  sessionId := session.map (·.sessionId)
  lastActivityAt := session.map (·.lastActivityAt)
  title := metadata.bind (·.title)
  labels := metadata.bind (·.labels)

/-- A context that has no tag has the empty one. -/
def ContextInfo.hasTag (tag : String) (info : ContextInfo) : Bool :=
  info.clientTag.getD "" = tag

variable (k : Crates)

/-- `context_to_json`, with the store as it leaves it. -/
def Store.contextToJson (s : Store) (pack : Bytes) (tracker : SessionTracker)
    (contextId : UInt64) : Except StoreError ContextInfo × Store :=
  match s.stores.turnStore.getHead contextId with
  | .error e => (.error e, s)
  | .ok head =>
      let session := tracker.getSessionForContext contextId
      let (metadata, s) := s.getContextMetadata k pack contextId
      (.ok (head.info session metadata), s)

/-! ### The handler -/

/-- The parameters of `GET /v1/contexts`; a limit that is no `u32` counts as none. -/
structure ContextsParams where
  limit : Option UInt32
  tag : Option String
  label : Option String
  taskId : Option String

/-- The parameters of a listing with a limit and a tag. -/
def ContextsParams.tagged (limit : UInt32) (tag : String) : ContextsParams where
  limit := some limit
  tag := some tag
  label := none
  taskId := none

/-- The heads of a store. -/
def TurnStore.contexts (s : TurnStore) : List ContextHead :=
  (LastWrite.sortedKeys s.heads).filterMap s.heads.lookup

/-- `list_recent_contexts`, when the hash map of heads is iterated over in some order. -/
def listRecentContexts (values : List ContextHead) (limit : ℕ) : List ContextHead :=
  (newestFirst (·.createdAtUnixMs) values).take limit

/-- In the order of their ids, for one. -/
theorem TurnStore.listRecentContexts_eq (s : TurnStore) (limit : ℕ) :
    s.listRecentContexts limit = Cxdb.listRecentContexts s.contexts limit := rfl

/-- The objects of the contexts that pass the filter. -/
def Store.contextsJson (pack : Bytes) (tracker : SessionTracker) (tagFilter : Option String)
    (s : Store) : List ContextHead → List ContextInfo × Store
  | [] => ([], s)
  | c :: contexts =>
      let (info, s) := s.contextToJson k pack tracker c.contextId
      let (infos, s) := Store.contextsJson pack tracker tagFilter s contexts
      match info with
      | .error _ => (infos, s)
      | .ok info => (if tagFilter.all (info.hasTag ·) then info :: infos else infos, s)

/-- The contexts that `GET /v1/contexts` responds with. -/
def getContexts (params : ContextsParams) (values : List ContextHead) (tracker : SessionTracker)
    (m : Store × DataDir) : List ContextInfo × Store :=
  let limit := params.limit.getD 20
  let labelFilter := params.label.or (params.taskId.map ("task:" ++ ·))
  let contexts :=
    match labelFilter with
    | some label => m.1.listContextsByLabel label limit
    | none => listRecentContexts values limit.toNat
  m.1.contextsJson k (m.2 .blobsPack) tracker params.tag contexts

/-! ### Reading the metadata of several contexts -/

/-- The object of a context in a store. -/
def Store.info (s : Store) (pack : Bytes) (tracker : SessionTracker) (head : ContextHead) :
    ContextInfo :=
  head.info (tracker.getSessionForContext head.contextId)
    (s.getContextMetadata k pack head.contextId).1

/-- The objects of all contexts. -/
def allContexts (tracker : SessionTracker) (m : Store × DataDir) : List ContextInfo :=
  m.1.stores.turnStore.contexts.map (m.1.info k (m.2 .blobsPack) tracker)

variable {k}

/-- **Reading the metadata** of one context leaves what is read of others alone. -/
theorem Store.getContextMetadata_read (s : Store) (pack : Bytes) (c id : UInt64) :
    ((s.getContextMetadata k pack c).2.getContextMetadata k pack id).1 =
      (s.getContextMetadata k pack id).1 := by
  cases hc : s.contextMetadataCache.lookup c with
  | some cached => simp only [Store.getContextMetadata, hc]
  | none =>
      simp only [Store.getContextMetadata, hc, LastWrite.lookup_insert]
      by_cases hid : id = c
      · rw [if_pos hid, hid, hc]
      · rw [if_neg hid]
        cases s.contextMetadataCache.lookup id <;> rfl

theorem Store.info_read (s : Store) (pack : Bytes) (tracker : SessionTracker) (c : UInt64) :
    (s.getContextMetadata k pack c).2.info k pack tracker = s.info k pack tracker := by
  funext head
  simp only [Store.info, Store.getContextMetadata_read]

/-- What the handler makes of some heads, which are in the store under their ids. -/
theorem Store.contextsJson_eq (pack : Bytes) (tracker : SessionTracker) (tag : String)
    (contexts : List ContextHead) (s : Store)
    (h : ∀ c ∈ contexts, s.stores.turnStore.heads.lookup c.contextId = some c) :
    (s.contextsJson k pack tracker (some tag) contexts).1 =
      (contexts.map (s.info k pack tracker)).filter (·.hasTag tag) := by
  induction contexts generalizing s with
  | nil => rfl
  | cons c contexts ih =>
      have hc := h c List.mem_cons_self
      have hread := s.getContextMetadata_eq (k := k) pack c.contextId
      have hrest := ih (s.getContextMetadata k pack c.contextId).2 fun c' hc' => by
        rw [hread.1]
        exact h c' (List.mem_cons_of_mem _ hc')
      rw [Store.info_read] at hrest
      simp only [Store.contextsJson, Store.contextToJson, TurnStore.getHead, hc, hrest,
        Option.all_some, List.map_cons, List.filter_cons]
      rfl

/-! ### The heads of a store -/

/-- A listed head is in the store under its id. -/
theorem TurnStore.Keyed.lookup_of_mem {s : TurnStore} (h : s.Keyed) {c : ContextHead}
    (hc : c ∈ s.contexts) : s.heads.lookup c.contextId = some c := by
  obtain ⟨id, -, hlookup⟩ := List.mem_filterMap.mp hc
  rw [h id c hlookup]
  exact hlookup

theorem nodup_allContexts {m : Store × DataDir} (h : Store.Reachable k m)
    (tracker : SessionTracker) : (allContexts k tracker m).Nodup := by
  have hmap : (allContexts k tracker m).map (·.contextId) =
      LastWrite.sortedKeys m.1.stores.turnStore.heads := by
    rw [allContexts, List.map_map, ← h.consistent.keyed.map_contextId]
    rfl
  refine List.Nodup.of_map (·.contextId) ?_
  rw [hmap]
  exact LastWrite.nodup_sortedKeys _

/-- Objects are sorted as heads are. -/
theorem map_newestFirst (f : ContextHead → ContextInfo)
    (hf : ∀ c, (f c).createdAtUnixMs = c.createdAtUnixMs) (values : List ContextHead) :
    (newestFirst (·.createdAtUnixMs) values).map f =
      newestFirst (·.createdAtUnixMs) (values.map f) :=
  List.map_mergeSort fun a _ b _ => by simp only [hf]

/-- **A listing with a tag**: the objects of all contexts are sorted, cut off and filtered. -/
theorem getContexts_recent {m : Store × DataDir} (h : Store.Reachable k m)
    (tracker : SessionTracker) (limit : UInt32) (tag : String) {values : List ContextHead}
    (hvalues : values.Perm m.1.stores.turnStore.contexts) :
    (getContexts k (.tagged limit tag) values tracker m).1 =
      ((newestFirst (·.createdAtUnixMs)
        (values.map (m.1.info k (m.2 .blobsPack) tracker))).take limit.toNat).filter
          (·.hasTag tag) := by
  have hheads : ∀ c ∈ listRecentContexts values limit.toNat,
      m.1.stores.turnStore.heads.lookup c.contextId = some c := fun c hc =>
    h.consistent.keyed.lookup_of_mem
      (((newestFirst_perm _ _).trans hvalues).mem_iff.mp (List.mem_of_mem_take hc))
  rw [← map_newestFirst _ fun _ => rfl, ← List.map_take]
  exact Store.contextsJson_eq (m.2 .blobsPack) tracker tag _ m.1 hheads

/-! ### When the filter is right -/

/-- The contexts of a listing with a limit and a tag are the newest ones that match the tag,
however the heads are iterated over, **if and only if** no context that does not match can take
the place of one that does: none that is at least as new, that fewer than the limit are newer
than, where more than the limit are at least as new as the other. -/
theorem tag_listing_right_iff {m : Store × DataDir} (h : Store.Reachable k m)
    (tracker : SessionTracker) (limit : UInt32) (tag : String) :
    (∀ values, values.Perm m.1.stores.turnStore.contexts →
        MostRecent (·.createdAtUnixMs) limit.toNat (allContexts k tracker m) (·.hasTag tag)
          (getContexts k (.tagged limit tag) values tracker m).1) ↔
      ∀ a ∈ allContexts k tracker m, ∀ b ∈ allContexts k tracker m,
        a.hasTag tag → ¬b.hasTag tag → a.createdAtUnixMs ≤ b.createdAtUnixMs →
          newer (·.createdAtUnixMs) (allContexts k tracker m) b < limit.toNat →
            notOlder (·.createdAtUnixMs) (allContexts k tracker m) a ≤ limit.toNat := by
  rw [← forall_mostRecent_iff (nodup_allContexts h tracker)]
  constructor
  · intro hright l' hperm
    set f := m.1.info k (m.2 .blobsPack) tracker
    have hlift : Relation.Comp (fun l values => l = values.map f) List.Perm l'
        m.1.stores.turnStore.contexts := by
      rw [List.eq_map_comp_perm]
      exact hperm
    obtain ⟨values, rfl, hvalues⟩ := hlift
    rw [← getContexts_recent h tracker limit tag hvalues]
    exact hright values hvalues
  · intro hright values hvalues
    rw [getContexts_recent h tracker limit tag hvalues]
    exact hright _ (hvalues.map _)

/-- A store in which one context was created after another. -/
def twoContexts (d : DataDir) : Store × DataDir :=
  let m := ((StoreOp.call (.createContext 0) 1 none).run .plain timeless (Store.empty, d)).2
  ((StoreOp.call (.createContext 0) 2 none).run .plain timeless m).2

/-- The sessions that created them, with the tags "a" and "b". -/
def twoSessions : SessionTracker :=
  ((SessionTracker.new.register 1 1 "a" none).addContext 1 1 |>.register 2 2 "b" none).addContext
    2 2

theorem twoContexts_reachable {d : DataDir} (h : Store.Reachable .plain (Store.empty, d)) :
    Store.Reachable .plain (twoContexts d) :=
  (h.op timeless _).op timeless _

theorem allContexts_two (d : DataDir) :
    allContexts .plain twoSessions (twoContexts d) =
      [⟨1, 0, 0, 1, true, some "a", some 1, some 1, none, none⟩,
        ⟨2, 0, 0, 2, true, some "b", some 2, some 2, none, none⟩] := by
  rfl

/-- The newer one of two contexts is listed with its tag. -/
theorem tag_listing_right_newer :
    ∃ d, ∀ values, values.Perm (twoContexts d).1.stores.turnStore.contexts →
      MostRecent (·.createdAtUnixMs) 1 (allContexts .plain twoSessions (twoContexts d))
        (·.hasTag "b")
        (getContexts .plain (.tagged 1 "b") values twoSessions (twoContexts d)).1 := by
  obtain ⟨d, hd⟩ := Store.openDir_empty .plain
  refine ⟨d, (tag_listing_right_iff (twoContexts_reachable (.openDir hd)) twoSessions 1 "b").mpr
    ?_⟩
  rw [allContexts_two]
  simp [ContextInfo.hasTag]

/-- **A newer context hides the only one that matches**: the older one of two contexts is not
listed with its tag, if the limit is one. -/
theorem newer_context_hides_tag :
    ¬ ∀ m, Store.Reachable .plain m → ∀ (tracker : SessionTracker) (limit : UInt32) (tag : String),
      ∀ values, values.Perm m.1.stores.turnStore.contexts →
        MostRecent (·.createdAtUnixMs) limit.toNat (allContexts .plain tracker m) (·.hasTag tag)
          (getContexts .plain (.tagged limit tag) values tracker m).1 := by
  intro h
  obtain ⟨d, hd⟩ := Store.openDir_empty .plain
  have hreach := twoContexts_reachable (.openDir hd)
  have hright := h _ hreach twoSessions 1 "a" _ (List.Perm.refl _)
  have hresponse := getContexts_recent hreach twoSessions 1 "a" (List.Perm.refl _)
  rw [← allContexts, allContexts_two] at hresponse
  have hlength := hright.length
  rw [hresponse, allContexts_two] at hlength
  simp [newestFirst, List.mergeSort, ContextInfo.hasTag] at hlength

end Cxdb
