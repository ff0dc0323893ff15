import Cxdb.MapDiffs
import Cxdb.Store
import Cxdb.SnapshotWalks
import Cxdb.TreeObjects

/-!
# Differences of Snapshots

`Diff` of the two clients: two snapshots are compared by the files and symbolic links that a walk
of each shows. Only the hashes are compared, so that a file that has become a link to what it
contained, or a link that has become a file, is not seen as modified. The maps are iterated in
any order.

## Main results

* `diff_isDiff`: the difference is that of the hashes under the paths.
* `snapshot_diff`: when it is the difference of what the snapshots show.
* `retyped_file_unseen`: a difference that is not seen.
-/

open ByteFormat IterationOrder LastWrite

namespace Cxdb

/-! ### The code -/

/-- `SnapshotDiff`. -/
structure SnapshotDiff where
  added : List Bytes
  removed : List Bytes
  modified : List Bytes
  oldRoot : Hash
  newRoot : Hash
  deriving DecidableEq

/-- The orders in which `Diff` iterates over its two maps. -/
structure PathOrders where
  news : Finset Bytes → List Bytes
  olds : Finset Bytes → List Bytes
  news_list : ∀ keys, Lists keys (news keys)
  olds_list : ∀ keys, Lists keys (olds keys)

instance transBytes : IsTrans Bytes (· ≤ ·) := inferInstance

instance antisymmBytes : Std.Antisymm (fun a b : Bytes => a ≤ b) := inferInstance

instance totalBytes : Std.Total (fun a b : Bytes => a ≤ b) := inferInstance

/-- Every map in the order of its paths. -/
def PathOrders.sorted : PathOrders where
  news keys := IterationOrder.sorted (· ≤ ·) keys
  olds keys := IterationOrder.sorted (· ≤ ·) keys
  news_list keys := lists_sorted (· ≤ ·) keys
  olds_list keys := lists_sorted (· ≤ ·) keys

/-- A callback that notes something of each file and each link under its path. -/
def note {α : Type} (val : TreeEntry → α) (path : Bytes) (entry : TreeEntry)
    (paths : HashMap Bytes α) : Except FstreeError (HashMap Bytes α) :=
  if entry.kind = .file ∨ entry.kind = .symlink then .ok (paths.insert path (val entry))
  else .ok paths

/-- The callback of `Diff`. -/
def notePath : Bytes → TreeEntry → HashMap Bytes Hash → Except FstreeError (HashMap Bytes Hash) :=
  note TreeEntry.hash

/-- The loop over the new paths. -/
def findChanged (oldPaths : HashMap Bytes Hash) (diff : SnapshotDiff) :
    List (Bytes × Hash) → SnapshotDiff
  | [] => diff
  | (path, newHash) :: rest =>
      match oldPaths.lookup path with
      | none => findChanged oldPaths { diff with added := diff.added ++ [path] } rest
      | some oldHash =>
          if newHash ≠ oldHash then
            findChanged oldPaths { diff with modified := diff.modified ++ [path] } rest
          else findChanged oldPaths diff rest

/-- The loop over the old paths. -/
def findRemoved (newPaths : HashMap Bytes Hash) (diff : SnapshotDiff) :
    List Bytes → SnapshotDiff
  | [] => diff
  | path :: rest =>
      if path ∈ newPaths then findRemoved newPaths diff rest
      else findRemoved newPaths { diff with removed := diff.removed ++ [path] } rest

/-- A difference with the roots only. -/
def SnapshotDiff.ofRoots (oldRoot newRoot : Hash) : SnapshotDiff :=
  { added := [], removed := [], modified := [], oldRoot, newRoot }

/-- `Diff`. There is no outcome where the fuel runs out. -/
def Snapshot.diff (r : TreeReader) (orders : PathOrders) (fuel : ℕ) (s : Snapshot)
    (old : Option Snapshot) : Option (Except FstreeError SnapshotDiff) :=
  let diff := SnapshotDiff.ofRoots
    ((old.map Snapshot.rootHash).getD (List.Vector.replicate 32 0)) s.rootHash
  if old.any fun old => s.rootHash = old.rootHash then some (.ok diff)
  else
    match s.walk r notePath fuel ∅ with
    | none => none
    | some (.error e) => some (.error e)
    | some (.ok newPaths) =>
      match old with
      | none => some (.ok { diff with added := orders.news newPaths.keys })
      | some old =>
        match old.walk r notePath fuel ∅ with
        | none => none
        | some (.error e) => some (.error e)
        | some (.ok oldPaths) =>
            let diff := findChanged oldPaths diff (entriesIn newPaths (orders.news newPaths.keys))
            some (.ok (findRemoved newPaths diff (orders.olds oldPaths.keys)))

/-- `IsEmpty`. -/
def SnapshotDiff.isEmpty (d : SnapshotDiff) : Bool :=
  d.added.length == 0 && d.removed.length == 0 && d.modified.length == 0

/-- The paths of a difference. -/
def SnapshotDiff.paths (d : SnapshotDiff) : MapDiffs.Diff Bytes := ⟨d.added, d.removed, d.modified⟩

/-! ### The loops -/

theorem findChanged_eq (oldPaths : HashMap Bytes Hash) (diff : SnapshotDiff)
    (vs : List (Bytes × Hash)) :
    findChanged oldPaths diff vs =
      { diff with
        added := diff.added ++ (vs.filter fun v => v.1 ∉ oldPaths).map Prod.fst
        modified := diff.modified ++
          (vs.filter fun v => (oldPaths.lookup v.1).any fun h => v.2 ≠ h).map Prod.fst } := by
  induction vs generalizing diff with
  | nil => simp [findChanged]
  | cons v vs ih =>
      obtain ⟨path, newHash⟩ := v
      rw [findChanged]
      cases hold : oldPaths.lookup path with
      | none =>
          have hnot : path ∉ oldPaths := Finmap.lookup_eq_none.mp hold
          simp only [ih]
          simp [hnot, hold]
      | some oldHash =>
          have hmem : path ∈ oldPaths := Finmap.mem_of_lookup_eq_some hold
          by_cases hne : newHash = oldHash
          · subst hne
            simp only [ih]
            simp [hmem, hold]
          · simp only [if_pos hne, ih]
            simp [hmem, hold, hne]

theorem findRemoved_eq (newPaths : HashMap Bytes Hash) (diff : SnapshotDiff) (ps : List Bytes) :
    findRemoved newPaths diff ps =
      { diff with removed := diff.removed ++ ps.filter fun p => p ∉ newPaths } := by
  induction ps generalizing diff with
  | nil => simp [findRemoved]
  | cons p ps ih =>
      rw [findRemoved]
      by_cases hp : p ∈ newPaths
      · simp only [if_pos hp, ih]
        simp [hp]
      · simp only [if_neg hp, ih]
        simp [hp]

/-- **The two loops** find the difference of the two maps. -/
theorem loops_isDiff {oldPaths newPaths : HashMap Bytes Hash} {ks ks' : List Bytes}
    (hks : Lists newPaths.keys ks) (hks' : Lists oldPaths.keys ks') {d : SnapshotDiff}
    (hd : d.paths = ⟨[], [], []⟩) :
    MapDiffs.IsDiff oldPaths newPaths
      (findRemoved newPaths (findChanged oldPaths d (entriesIn newPaths ks)) ks').paths := by
  obtain ⟨hadded, hremoved, hmodified⟩ := MapDiffs.Diff.mk.inj hd
  have hnodup : ∀ q : Bytes × Hash → Bool,
      (((entriesIn newPaths ks).filter q).map Prod.fst).Nodup := by
    intro q
    have hsub : (((entriesIn newPaths ks).filter q).map Prod.fst).Sublist
        ((entriesIn newPaths ks).map Prod.fst) := List.filter_sublist.map _
    rw [keys_entriesIn hks] at hsub
    exact hsub.nodup hks.nodup
  rw [findRemoved_eq, findChanged_eq]
  simp only [SnapshotDiff.paths, hadded, hremoved, hmodified, List.nil_append]
  refine ⟨hnodup _, hks'.nodup.filter _, hnodup _, fun k => ?_, fun k => ?_, fun k => ?_⟩
  · simp only [List.mem_map, List.mem_filter, decide_eq_true_eq]
    constructor
    · rintro ⟨⟨p, h⟩, ⟨hin, hnot⟩, rfl⟩
      exact ⟨hnot, Finmap.mem_of_lookup_eq_some ((mem_entriesIn hks).mp hin)⟩
    · rintro ⟨hnot, hin⟩
      obtain ⟨h, hh⟩ := Finmap.mem_iff.mp hin
      exact ⟨(k, h), ⟨(mem_entriesIn hks).mpr hh, hnot⟩, rfl⟩
  · rw [List.mem_filter, hks'.mem_iff, Finmap.mem_keys, decide_eq_true_eq]
  · simp only [List.mem_map, List.mem_filter, Option.any_eq_true, decide_eq_true_eq]
    constructor
    · rintro ⟨⟨p, h⟩, ⟨hin, h', hold, hne⟩, rfl⟩
      exact ⟨h', h, hold, (mem_entriesIn hks).mp hin, hne.symm⟩
    · rintro ⟨h', h, hold, hnew, hne⟩
      exact ⟨(k, h), ⟨(mem_entriesIn hks).mpr hnew, h', hold, hne.symm⟩, rfl⟩

/-! ### What a snapshot shows -/

/-- The kinds and hashes that there are under some paths. -/
abbrev Contents := HashMap Bytes (EntryKind × Hash)

/-- A walk of the snapshot shows these files and links. -/
def Snapshot.Shows (r : TreeReader) (s : Snapshot) (m : Contents) : Prop :=
  ∃ fuel, s.walk r (note fun entry => (entry.kind, entry.hash)) fuel ∅ = some (.ok m)

/-- What is noted of the entries that are visited. -/
def noted {α : Type} (val : TreeEntry → α) (vs : List Visit) : HashMap Bytes α :=
  insertAll Prod.fst (fun v => val v.2) ∅
    (vs.filter fun v => v.2.kind = .file ∨ v.2.kind = .symlink)

theorem foldlM_note {α : Type} (val : TreeEntry → α) (vs : List Visit) :
    vs.foldlM (fun paths v => note val v.1 v.2 paths) ∅ = .ok (noted val vs) := by
  induction vs using List.reverseRecOn with
  | nil => rfl
  | append_singleton vs v ih =>
      rw [List.foldlM_append, ih]
      change (note val v.1 v.2 (noted val vs) >>= pure) = _
      rw [bind_pure, note, noted, noted, List.filter_append]
      split_ifs with h
      · rw [List.filter_singleton, decide_eq_true h, cond_true, insertAll_concat, ← noted]
      · rw [List.filter_singleton, decide_eq_false h, cond_false, List.append_nil, ← noted]

/-- What is noted of an image is the image of what is noted. -/
theorem lookup_noted {α β : Type} (f : α → β) (val : TreeEntry → α) (vs : List Visit)
    (path : Bytes) :
    (noted (fun entry => f (val entry)) vs).lookup path = ((noted val vs).lookup path).map f := by
  rw [noted, noted]
  induction vs.filter fun v => v.2.kind = .file ∨ v.2.kind = .symlink using
    List.reverseRecOn with
  | nil => rfl
  | append_singleton bs b ih =>
      rw [insertAll_concat, insertAll_concat, lookup_insert, lookup_insert, ih]
      split_ifs <;> rfl

theorem Snapshot.Shows.visits {r : TreeReader} {s : Snapshot} {m : Contents} (h : s.Shows r m) :
    ∃ vs, s.Visits r vs ∧ m = noted (fun entry => (entry.kind, entry.hash)) vs := by
  obtain ⟨fuel, hwalk⟩ := h
  obtain ⟨vs, hvs, hfold⟩ := visits_of_walk hwalk
  rw [foldlM_note] at hfold
  exact ⟨vs, hvs, (Except.ok.inj hfold).symm⟩

/-- **The two clients show the same** of a snapshot with the names that directories have. -/
theorem Snapshot.Shows.rust {s : Snapshot} (hs : s.Named) {m : Contents}
    (h : s.Shows Go.treeReader m) : s.Shows Rust.treeReader m := by
  obtain ⟨vs, hvs, rfl⟩ := h.visits
  obtain ⟨bound, hwalk⟩ := walk_of_visits (hvs.rust hs)
  exact ⟨bound, by rw [hwalk bound le_rfl, foldlM_note]⟩

/-! ### Tree objects under their hashes -/

variable {blake3 : Bytes → Hash}

/-- The tree objects are under the hashes of their bytes, and fit into msgpack. -/
structure Snapshot.Addressed (blake3 : Bytes → Hash) (serialize : List TreeEntry → Bytes)
    (s : Snapshot) : Prop where
  hash : ∀ {h es}, s.trees.lookup h = some es → blake3 (serialize es) = h
  length : ∀ {h es}, s.trees.lookup h = some es → es.length < 2 ^ 32
  names : ∀ {h es}, s.trees.lookup h = some es → ∀ e ∈ es, e.name.length < 2 ^ 32

/-- The bytes of the tree objects. -/
def Snapshot.objects (serialize : List TreeEntry → Bytes) (s : Snapshot) : Set Bytes :=
  {bs | ∃ h es, s.trees.lookup h = some es ∧ serialize es = bs}

/-- The bytes of a tree object determine its entries. -/
def Packs (serialize : List TreeEntry → Bytes) : Prop :=
  ∀ {es es'}, es.length < 2 ^ 32 → es'.length < 2 ^ 32 → (∀ e ∈ es, e.name.length < 2 ^ 32) →
    (∀ e ∈ es', e.name.length < 2 ^ 32) → serialize es = serialize es' → es = es'

theorem Rust.packs : Packs Rust.serializeTree := serializeTree_injective

theorem Go.packs : Packs Go.serializeTree := by
  intro es es' hlen hlen' hnames hnames' h
  rw [Go.serializeTree, Go.serializeTree] at h
  split_ifs at h with hes hes' hes'
  · rw [hes, hes']
  · exact absurd h.symm (serializeTree_ne_nil es')
  · exact absurd h (serializeTree_ne_nil es)
  · exact serializeTree_injective hlen hlen' hnames hnames' h

/-- Two snapshots have one tree object under one hash. -/
theorem Snapshot.Addressed.agree {serialize : List TreeEntry → Bytes} (hpacks : Packs serialize)
    {a b : Snapshot} (ha : a.Addressed blake3 serialize) (hb : b.Addressed blake3 serialize)
    (hnc : Node.NoCollision blake3 (a.objects serialize) (b.objects serialize)) {hash : Hash}
    {es es' : List TreeEntry} (h : a.trees.lookup hash = some es)
    (h' : b.trees.lookup hash = some es') : es = es' :=
  hpacks (ha.length h) (hb.length h') (ha.names h) (hb.names h')
    (hnc _ ⟨hash, es, h, rfl⟩ _ ⟨hash, es', h', rfl⟩ ((ha.hash h).trans (hb.hash h').symm))

/-- **Snapshots with one root show the same.** -/
theorem Snapshot.Shows.eq_of_root {r : TreeReader} {serialize : List TreeEntry → Bytes}
    (hpacks : Packs serialize) {a b : Snapshot} {m m' : Contents}
    (ha : a.Addressed blake3 serialize) (hb : b.Addressed blake3 serialize)
    (hnc : Node.NoCollision blake3 (a.objects serialize) (b.objects serialize))
    (hm : a.Shows r m) (hm' : b.Shows r m') (hroot : a.rootHash = b.rootHash) : m = m' := by
  obtain ⟨vs, ⟨es, hes, hvs⟩, rfl⟩ := hm.visits
  obtain ⟨vs', ⟨es', hes', hvs'⟩, rfl⟩ := hm'.visits
  rw [← hroot] at hes'
  obtain rfl := ha.agree hpacks hb hnc hes hes'
  rw [hvs.eq_of_agree (ha.agree hpacks hb hnc) hvs']

/-- **A difference of snapshots** is that of the hashes under the paths. -/
theorem diff_isDiff {r : TreeReader} {serialize : List TreeEntry → Bytes}
    (hpacks : Packs serialize) {a b : Snapshot} {m m' : Contents}
    (ha : a.Addressed blake3 serialize) (hb : b.Addressed blake3 serialize)
    (hnc : Node.NoCollision blake3 (a.objects serialize) (b.objects serialize))
    (hm : a.Shows r m) (hm' : b.Shows r m') (orders : PathOrders) :
    ∃ bound d, ∃ n n' : HashMap Bytes Hash,
      (∀ fuel, bound ≤ fuel → b.diff r orders fuel (some a) = some (.ok d)) ∧
      d.oldRoot = a.rootHash ∧ d.newRoot = b.rootHash ∧
      (∀ path, n.lookup path = (m.lookup path).map Prod.snd) ∧
      (∀ path, n'.lookup path = (m'.lookup path).map Prod.snd) ∧
      MapDiffs.IsDiff n n' d.paths := by
  obtain ⟨vs, hvs, hmvs⟩ := hm.visits
  obtain ⟨vs', hvs', hmvs'⟩ := hm'.visits
  obtain ⟨bound, hwalk⟩ := walk_of_visits (σ := HashMap Bytes Hash) hvs
  obtain ⟨bound', hwalk'⟩ := walk_of_visits (σ := HashMap Bytes Hash) hvs'
  have himage : ∀ path, (noted TreeEntry.hash vs).lookup path = (m.lookup path).map Prod.snd :=
    fun path => hmvs ▸ lookup_noted Prod.snd (fun entry => (entry.kind, entry.hash)) vs path
  have himage' : ∀ path,
      (noted TreeEntry.hash vs').lookup path = (m'.lookup path).map Prod.snd :=
    fun path => hmvs' ▸ lookup_noted Prod.snd (fun entry => (entry.kind, entry.hash)) vs' path
  by_cases hroot : b.rootHash = a.rootHash
  · obtain rfl := hm.eq_of_root hpacks ha hb hnc hm' hroot.symm
    refine ⟨0, .ofRoots a.rootHash b.rootHash, _, _, fun fuel _ => ?_, rfl, rfl, himage, himage,
      ?_⟩
    · rw [Snapshot.diff, Option.any_some, decide_eq_true hroot, if_pos rfl]
      rfl
    · refine ⟨List.nodup_nil, List.nodup_nil, List.nodup_nil, fun k => ?_, fun k => ?_,
        fun k => ?_⟩
      · simp [SnapshotDiff.paths, SnapshotDiff.ofRoots]
      · simp [SnapshotDiff.paths, SnapshotDiff.ofRoots]
      · simp only [SnapshotDiff.paths, SnapshotDiff.ofRoots, List.not_mem_nil, false_iff]
        rintro ⟨h, h', hh, hh', hne⟩
        exact hne (Option.some.inj (hh.symm.trans hh'))
  · refine ⟨max bound bound', _, _, _, fun fuel hfuel => ?_, ?_, ?_, himage, himage',
      loops_isDiff (d := .ofRoots a.rootHash b.rootHash) (orders.news_list _)
        (orders.olds_list _) rfl⟩
    · obtain ⟨hle, hle'⟩ := max_le_iff.mp hfuel
      have hold : a.walk r notePath fuel ∅ = some (.ok (noted TreeEntry.hash vs)) := by
        rw [hwalk fuel hle, notePath, foldlM_note]
      have hnew : b.walk r notePath fuel ∅ = some (.ok (noted TreeEntry.hash vs')) := by
        rw [hwalk' fuel hle', notePath, foldlM_note]
      rw [Snapshot.diff, Option.any_some, decide_eq_false hroot, if_neg Bool.false_ne_true]
      simp only [hold, hnew]
      rfl
    · rw [findRemoved_eq, findChanged_eq]
      rfl
    · rw [findRemoved_eq, findChanged_eq]
      rfl

/-! ### The laws of differences -/

/-- **The laws of a difference** `d` between what two snapshots show, where `back` is the
difference in the other direction. -/
structure SnapshotDiff.Lawful (d back : SnapshotDiff) (m m' : Contents) : Prop where
  nodup : d.added.Nodup ∧ d.removed.Nodup ∧ d.modified.Nodup
  disjoint : d.added.Disjoint d.removed ∧ d.added.Disjoint d.modified ∧
    d.removed.Disjoint d.modified
  added : ∀ path, path ∈ d.added ↔ path ∉ m ∧ path ∈ m'
  removed : ∀ path, path ∈ d.removed ↔ path ∈ m ∧ path ∉ m'
  modified : ∀ path, path ∈ d.modified ↔ ∃ kind hash kind' hash',
    m.lookup path = some (kind, hash) ∧ m'.lookup path = some (kind', hash') ∧
      (kind ≠ kind' ∨ hash ≠ hash')
  isEmpty : d.isEmpty = true ↔ m = m'
  replay : d.paths.replay m m' = m'
  mirror : ∀ path, (path ∈ back.added ↔ path ∈ d.removed) ∧
    (path ∈ back.removed ↔ path ∈ d.added) ∧ (path ∈ back.modified ↔ path ∈ d.modified)

/-- No file has become a link with its hash, and no link a file. -/
def KeepsKinds (m m' : Contents) : Prop :=
  ∀ path kind kind' hash, m.lookup path = some (kind, hash) →
    m'.lookup path = some (kind', hash) → kind = kind'

theorem keepsKinds_iff {m m' : Contents} : KeepsKinds m m' ↔
    ∀ path v v', m.lookup path = some v → m'.lookup path = some v' → v.2 = v'.2 → v = v' := by
  constructor
  · rintro h path ⟨kind, hash⟩ ⟨kind', hash'⟩ hv hv' heq
    obtain rfl : hash = hash' := heq
    rw [h path kind kind' hash hv hv']
  · intro h path kind kind' hash hv hv'
    exact congrArg Prod.fst (h path _ _ hv hv' rfl)

/-- Two values differ by their kinds or by their hashes. -/
theorem changed_iff {m m' : Contents} {path : Bytes} :
    (∃ kind hash kind' hash', m.lookup path = some (kind, hash) ∧
        m'.lookup path = some (kind', hash') ∧ (kind ≠ kind' ∨ hash ≠ hash')) ↔
      ∃ v v', m.lookup path = some v ∧ m'.lookup path = some v' ∧ v ≠ v' := by
  constructor
  · rintro ⟨kind, hash, kind', hash', hv, hv', hne⟩
    refine ⟨_, _, hv, hv', fun heq => ?_⟩
    obtain ⟨rfl, rfl⟩ := Prod.mk.inj heq
    exact hne.elim (absurd rfl) (absurd rfl)
  · rintro ⟨⟨kind, hash⟩, ⟨kind', hash'⟩, hv, hv', hne⟩
    refine ⟨kind, hash, kind', hash', hv, hv', ?_⟩
    rw [← not_and_or]
    rintro ⟨rfl, rfl⟩
    exact hne rfl

/-- **When the laws hold** of a difference of the hashes. -/
theorem lawful_iff {m m' : Contents} {n n' : HashMap Bytes Hash} {d back : SnapshotDiff}
    (hn : ∀ path, n.lookup path = (m.lookup path).map Prod.snd)
    (hn' : ∀ path, n'.lookup path = (m'.lookup path).map Prod.snd)
    (hd : MapDiffs.IsDiff n n' d.paths) (hback : MapDiffs.IsDiff n' n back.paths) :
    d.Lawful back m m' ↔ KeepsKinds m m' := by
  rw [keepsKinds_iff, ← hd.of_image_iff hn hn']
  constructor
  · intro h
    exact ⟨h.nodup.1, h.nodup.2.1, h.nodup.2.2, h.added, h.removed,
      fun path => (h.modified path).trans changed_iff⟩
  · intro h
    have hsame := hd.mirror.same hback
    exact
      { nodup := ⟨h.nodup_added, h.nodup_removed, h.nodup_modified⟩
        disjoint := ⟨fun _ => h.not_mem_removed, fun _ => h.added_not_modified,
          fun _ => h.removed_not_modified⟩
        added := h.mem_added
        removed := h.mem_removed
        modified := fun path => (h.mem_modified path).trans changed_iff.symm
        isEmpty := h.isEmpty_iff
        replay := h.replay_eq
        mirror := fun path =>
          ⟨(hsame.added path).symm, (hsame.removed path).symm, (hsame.modified path).symm⟩ }

/-- **Differences of snapshots** in the two clients: both find the same, and the laws hold if and
only if no file has become a link with its hash, and no link a file. -/
theorem snapshot_diff {a b a' b' : Snapshot} {m m' : Contents}
    (ha : a.Addressed blake3 Go.serializeTree) (hb : b.Addressed blake3 Go.serializeTree)
    (hnc : Node.NoCollision blake3 (a.objects Go.serializeTree) (b.objects Go.serializeTree))
    (hm : a.Shows Go.treeReader m) (hm' : b.Shows Go.treeReader m')
    (ha' : a'.Addressed blake3 Rust.serializeTree) (hb' : b'.Addressed blake3 Rust.serializeTree)
    (hnc' : Node.NoCollision blake3 (a'.objects Rust.serializeTree)
      (b'.objects Rust.serializeTree))
    (hrm : a'.Shows Rust.treeReader m) (hrm' : b'.Shows Rust.treeReader m')
    (go goBack rust rustBack : PathOrders) :
    ∃ bound d back d' back',
      (∀ fuel, bound ≤ fuel →
        b.diff Go.treeReader go fuel (some a) = some (.ok d) ∧
        a.diff Go.treeReader goBack fuel (some b) = some (.ok back) ∧
        b'.diff Rust.treeReader rust fuel (some a') = some (.ok d') ∧
        a'.diff Rust.treeReader rustBack fuel (some b') = some (.ok back')) ∧
      (d.Lawful back m m' ∧ d'.Lawful back' m m' ∧ d.paths.Same d'.paths ↔
        KeepsKinds m m') := by
  have hnc₁ : Node.NoCollision blake3 (b.objects Go.serializeTree)
      (a.objects Go.serializeTree) := fun _ hx _ hy heq => (hnc _ hy _ hx heq.symm).symm
  have hnc₂ : Node.NoCollision blake3 (b'.objects Rust.serializeTree)
      (a'.objects Rust.serializeTree) := fun _ hx _ hy heq => (hnc' _ hy _ hx heq.symm).symm
  obtain ⟨k₁, d, n₁, n₁', hdiff₁, -, -, hn₁, hn₁', hd₁⟩ :=
    diff_isDiff Go.packs ha hb hnc hm hm' go
  obtain ⟨k₂, back, n₂, n₂', hdiff₂, -, -, hn₂, hn₂', hd₂⟩ :=
    diff_isDiff Go.packs hb ha hnc₁ hm' hm goBack
  obtain ⟨k₃, d', n₃, n₃', hdiff₃, -, -, hn₃, hn₃', hd₃⟩ :=
    diff_isDiff Rust.packs ha' hb' hnc' hrm hrm' rust
  obtain ⟨k₄, back', n₄, n₄', hdiff₄, -, -, hn₄, hn₄', hd₄⟩ :=
    diff_isDiff Rust.packs hb' ha' hnc₂ hrm' hrm rustBack
  have himages : ∀ {l : Contents} {n n' : HashMap Bytes Hash},
      (∀ path, n.lookup path = (l.lookup path).map Prod.snd) →
      (∀ path, n'.lookup path = (l.lookup path).map Prod.snd) → n = n' :=
    fun h h' => Finmap.ext_lookup fun path => (h path).trans (h' path).symm
  obtain rfl := himages hn₁ hn₂'
  obtain rfl := himages hn₁' hn₂
  obtain rfl := himages hn₁ hn₃
  obtain rfl := himages hn₁' hn₃'
  obtain rfl := himages hn₁ hn₄'
  obtain rfl := himages hn₁' hn₄
  refine ⟨max (max k₁ k₂) (max k₃ k₄), d, back, d', back', fun fuel hfuel => ?_, ?_⟩
  · simp only [max_le_iff] at hfuel
    exact ⟨hdiff₁ fuel hfuel.1.1, hdiff₂ fuel hfuel.1.2, hdiff₃ fuel hfuel.2.1,
      hdiff₄ fuel hfuel.2.2⟩
  · rw [lawful_iff hn₁ hn₁' hd₁ hd₂, lawful_iff hn₁ hn₁' hd₃ hd₄]
    exact ⟨fun h => h.1, fun h => ⟨h, h, hd₁.same hd₃⟩⟩

/-! ### A file that has become a link -/

/-- The BLAKE3 hash of the letter `b`. -/
def letterBHash : Hash :=
  ⟨[16, 229, 207, 61, 60, 138, 79, 159, 52, 104, 200, 204, 88, 238, 168, 72, 146, 162, 47, 218,
    219, 193, 172, 178, 36, 16, 25, 0, 68, 193, 213, 83], rfl⟩

/-- A file named `a` that contains it. -/
def letterFile : TreeEntry :=
  { name := [97], kind := .file, mode := 0o644, size := 1, hash := letterBHash }

/-- A link named `a` to a file of that name. -/
def letterLink : TreeEntry :=
  { name := [97], kind := .symlink, mode := 0o777, size := 1, hash := letterBHash }

/-- The BLAKE3 hash of the tree with the file. -/
def fileTreeHash : Hash :=
  ⟨[218, 116, 136, 205, 112, 218, 148, 69, 80, 240, 65, 193, 45, 71, 132, 77, 102, 248, 58, 157,
    67, 222, 241, 116, 242, 190, 72, 173, 3, 29, 181, 227], rfl⟩

/-- The BLAKE3 hash of the tree with the link. -/
def linkTreeHash : Hash :=
  ⟨[119, 154, 184, 142, 71, 56, 195, 177, 214, 159, 54, 106, 69, 21, 52, 9, 24, 130, 251, 8, 183,
    32, 106, 39, 12, 236, 186, 187, 229, 243, 63, 48], rfl⟩

/-- BLAKE3 on these three inputs. -/
def letterDigest (bs : Bytes) : Hash :=
  if bs = [98] then letterBHash
  else if bs = Rust.serializeTree [letterFile] then fileTreeHash
  else linkTreeHash

def fileSnapshot : Snapshot where
  rootHash := fileTreeHash
  trees := (∅ : HashMap Hash (List TreeEntry)).insert fileTreeHash [letterFile]
  files := (∅ : HashMap Hash FileRef).insert letterBHash
    { path := [[97]], size := 1, hash := letterBHash }
  symlinks := ∅
  fileCount := 1
  dirCount := 1
  symlinkCount := 0
  totalBytes := 1

def linkSnapshot : Snapshot where
  rootHash := linkTreeHash
  trees := (∅ : HashMap Hash (List TreeEntry)).insert linkTreeHash [letterLink]
  files := ∅
  symlinks := (∅ : HashMap Hash Bytes).insert letterBHash [98]
  fileCount := 0
  dirCount := 1
  symlinkCount := 1
  totalBytes := 0

/-- What the two snapshots show. -/
def fileContents : Contents := (∅ : Contents).insert [97] (.file, letterBHash)

def linkContents : Contents := (∅ : Contents).insert [97] (.symlink, letterBHash)

theorem lookup_singleton {α : Type} {k k' : Hash} {a a' : α}
    (h : ((∅ : HashMap Hash α).insert k a).lookup k' = some a') : k = k' ∧ a = a' := by
  rw [lookup_insert] at h
  split_ifs at h with hk
  · exact ⟨hk.symm, Option.some.inj h⟩
  · cases h

set_option maxRecDepth 10000 in
theorem fileSnapshot_addressed : fileSnapshot.Addressed letterDigest Go.serializeTree ∧
    fileSnapshot.Addressed letterDigest Rust.serializeTree := by
  constructor <;> constructor <;> intro h es hes <;> obtain ⟨rfl, rfl⟩ := lookup_singleton hes <;>
    decide

set_option maxRecDepth 10000 in
theorem linkSnapshot_addressed : linkSnapshot.Addressed letterDigest Go.serializeTree ∧
    linkSnapshot.Addressed letterDigest Rust.serializeTree := by
  constructor <;> constructor <;> intro h es hes <;> obtain ⟨rfl, rfl⟩ := lookup_singleton hes <;>
    decide

set_option maxRecDepth 10000 in
theorem letters_noCollision {serialize : List TreeEntry → Bytes}
    (h : serialize = Go.serializeTree ∨ serialize = Rust.serializeTree) :
    Node.NoCollision letterDigest (fileSnapshot.objects serialize)
      (linkSnapshot.objects serialize) := by
  rintro x ⟨hash, es, hes, rfl⟩ y ⟨hash', es', hes', rfl⟩ heq
  obtain ⟨rfl, rfl⟩ := lookup_singleton hes
  obtain ⟨rfl, rfl⟩ := lookup_singleton hes'
  rcases h with rfl | rfl <;> exact absurd heq (by decide)

set_option maxRecDepth 10000 in
theorem fileSnapshot_shows : fileSnapshot.Shows Go.treeReader fileContents ∧
    fileSnapshot.Shows Rust.treeReader fileContents :=
  ⟨⟨1, by decide⟩, ⟨1, by decide⟩⟩

set_option maxRecDepth 10000 in
theorem linkSnapshot_shows : linkSnapshot.Shows Go.treeReader linkContents ∧
    linkSnapshot.Shows Rust.treeReader linkContents :=
  ⟨⟨1, by decide⟩, ⟨1, by decide⟩⟩

/-- The conditions can be met: the file and the link. -/
theorem snapshot_diff_letters :
    ∃ bound d back d' back',
      (∀ fuel, bound ≤ fuel →
        linkSnapshot.diff Go.treeReader .sorted fuel (some fileSnapshot) = some (.ok d) ∧
        fileSnapshot.diff Go.treeReader .sorted fuel (some linkSnapshot) = some (.ok back) ∧
        linkSnapshot.diff Rust.treeReader .sorted fuel (some fileSnapshot) = some (.ok d') ∧
        fileSnapshot.diff Rust.treeReader .sorted fuel (some linkSnapshot) =
          some (.ok back')) ∧
      (d.Lawful back fileContents linkContents ∧ d'.Lawful back' fileContents linkContents ∧
        d.paths.Same d'.paths ↔ KeepsKinds fileContents linkContents) :=
  snapshot_diff fileSnapshot_addressed.1 linkSnapshot_addressed.1
    (letters_noCollision (Or.inl rfl)) fileSnapshot_shows.1 linkSnapshot_shows.1
    fileSnapshot_addressed.2 linkSnapshot_addressed.2 (letters_noCollision (Or.inr rfl))
    fileSnapshot_shows.2 linkSnapshot_shows.2 .sorted .sorted .sorted .sorted

/-- The directory with the file, and the one with the link. -/
def fileDirectory : Node := .directory 0o40755 true [("a", .file 0o100644 true [98])]

def linkDirectory : Node := .directory 0o40755 true [("a", .symlink 0o120777 [98])]

set_option maxRecDepth 10000 in
/-- **A file that has become a link** is not in the difference of the two captures. -/
theorem retyped_file_unseen :
    ∃ a b m m' d back,
      capture letterDigest Go.walker .default fileDirectory.fileSystem 1 = some (.ok a) ∧
      capture letterDigest Go.walker .default linkDirectory.fileSystem 1 = some (.ok b) ∧
      a.Shows Go.treeReader m ∧ b.Shows Go.treeReader m' ∧
      b.diff Go.treeReader .sorted 1 (some a) = some (.ok d) ∧
      a.diff Go.treeReader .sorted 1 (some b) = some (.ok back) ∧
      m ≠ m' ∧ d.isEmpty = true ∧ ¬d.Lawful back m m' := by
  refine ⟨fileSnapshot, linkSnapshot, fileContents, linkContents,
    .ofRoots fileTreeHash linkTreeHash, .ofRoots linkTreeHash fileTreeHash, rfl, rfl,
    fileSnapshot_shows.1, linkSnapshot_shows.1, by decide, by decide,
    by decide, rfl, fun h => ?_⟩
  exact absurd (h.isEmpty.mp rfl) (by decide)

end Cxdb
