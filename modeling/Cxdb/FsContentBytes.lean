import Cxdb.FsPaths
import Cxdb.MarkedWalk

/-!
# The Size of All Snapshots

`compute_fs_content_bytes` adds up the sizes of all blobs that snapshots refer to: it opens the
roots one after another, and the directories below them, with one set of visited hashes. A
hash that is met as a file is visited then, and is passed over when it is met as a directory
later, so that what the directory holds may be missed. The roots come in the order of a hash
map, and the entries in that of their tree.

## Main results

* `computeFsContentBytes_eq`: the function is a walk with one set of marks.
* `content_bytes_counted`: it comes to the size of everything that is reachable, where no
  directory on the way was met as a file.
* `hidden_tree_uncounted`: it misses a file in a directory that was met as a file.
-/

open ByteFormat FaultyDisk MarkedWalk

namespace Cxdb.FsStore

/-! ### The code -/

/-- The loop of `unique_roots`, over the roots in the order of the map. -/
def uniqueLoop : List Hash → Finset Hash → List Hash
  | [], _ => []
  | hash :: values, seen =>
      if hash ∈ seen then uniqueLoop values seen
      else hash :: uniqueLoop values (insert hash seen)

/-- `unique_roots`. -/
def uniqueRoots (values : List Hash) : List Hash := uniqueLoop values ∅

/-- `raw_len`, or zero for a blob that is missing. -/
def TreeSource.rawLen (b : TreeSource) (hash : Hash) : UInt64 :=
  ((b.store.rawLen hash).getD 0).toUInt64

/-- The loop of `compute_tree_size` over the entries of a tree. -/
def TreeSource.entriesLoop (b : TreeSource)
    (computeTreeSize : Hash → Finset Hash → Option (UInt64 × Finset Hash)) :
    List TreeEntry → UInt64 → Finset Hash → Option (UInt64 × Finset Hash)
  | [], total, visited => some (total, visited)
  | entry :: entries, total, visited =>
    match entry.hashArray with
    | .error _ => b.entriesLoop computeTreeSize entries total visited
    | .ok hash =>
      if entry.kind = 1 then do
        let (size, visited) ← computeTreeSize hash visited
        b.entriesLoop computeTreeSize entries (total + size) visited
      else if hash ∈ visited then b.entriesLoop computeTreeSize entries total visited
      else b.entriesLoop computeTreeSize entries (total + b.rawLen hash) (insert hash visited)

/-- `compute_tree_size`, which returns nothing where the fuel is used up. -/
def TreeSource.computeTreeSize (b : TreeSource) :
    ℕ → Hash → Finset Hash → Option (UInt64 × Finset Hash)
  | 0, _, _ => none
  | fuel + 1, treeHash, visited =>
    if treeHash ∈ visited then some (0, visited)
    else
      match b.loadTreeEntries treeHash with
      | .error _ => some (b.rawLen treeHash, insert treeHash visited)
      | .ok entries =>
        b.entriesLoop (b.computeTreeSize fuel) entries (b.rawLen treeHash)
          (insert treeHash visited)

/-- The loop of `compute_fs_content_bytes`. -/
def TreeSource.rootsLoop (b : TreeSource) (fuel : ℕ) :
    List Hash → UInt64 → Finset Hash → Option UInt64
  | [], totalBytes, _ => some totalBytes
  | rootHash :: roots, totalBytes, visited => do
    let (size, visited) ← b.computeTreeSize fuel rootHash visited
    b.rootsLoop fuel roots (totalBytes + size) visited

/-- `compute_fs_content_bytes`, from the roots in the order of the map. -/
def TreeSource.computeFsContentBytes (b : TreeSource) (fuel : ℕ) (values : List Hash) :
    Option UInt64 :=
  let roots := uniqueRoots values
  if roots = [] then some 0 else b.rootsLoop fuel roots 0 ∅

/-! ### References -/

/-- What an entry refers to, as a directory or not, where it has a hash. -/
def TreeEntry.ref (entry : TreeEntry) : Option (Hash × Bool) :=
  match entry.hashArray with
  | .error _ => none
  | .ok hash => some (hash, decide (entry.kind = 1))

/-- What a tree refers to; a blob that is missing or no tree refers to nothing. -/
def TreeSource.refs (b : TreeSource) (treeHash : Hash) : Refs Hash :=
  match b.loadTreeEntries treeHash with
  | .error _ => []
  | .ok entries => entries.filterMap TreeEntry.ref

/-- References to the roots, in the order in which they are opened. -/
def rootRefs (values : List Hash) : Refs Hash := (uniqueRoots values).map fun hash => (hash, true)

/-- A hash is reachable from roots, as a directory or not. -/
inductive TreeSource.Reachable (b : TreeSource) (values : List Hash) : Hash → Bool → Prop
  | root {hash : Hash} : hash ∈ values → b.Reachable values hash true
  | entry {treeHash hash : Hash} {entries : List TreeEntry} {entry : TreeEntry} :
      b.Reachable values treeHash true → b.loadTreeEntries treeHash = .ok entries →
      entry ∈ entries → entry.hashArray = .ok hash →
      b.Reachable values hash (decide (entry.kind = 1))

/-- Whatever has a length and is reachable is a root or the entry of a directory that was met
as a file nowhere before, and neither was any directory on the way to it. -/
def TreeSource.NothingHidden (b : TreeSource) (values : List Hash) : Prop :=
  ∀ hash directory, b.Reachable values hash directory → b.rawLen hash ≠ 0 →
    SafelyMentioned b.refs (rootRefs values) hash

variable {b : TreeSource} {values : List Hash}

theorem mem_uniqueLoop {hash : Hash} {seen : Finset Hash} :
    hash ∈ uniqueLoop values seen ↔ hash ∈ values ∧ hash ∉ seen := by
  induction values generalizing seen with
  | nil => simp [uniqueLoop]
  | cons value values ih =>
      rw [uniqueLoop]
      split
      · rw [ih, List.mem_cons]
        refine and_congr_left fun hnot => (or_iff_right ?_).symm
        rintro rfl
        contradiction
      · rw [List.mem_cons, ih, List.mem_cons, Finset.mem_insert]
        by_cases heq : hash = value
        · subst heq
          simpa
        · simp [heq]

@[simp] theorem mem_uniqueRoots {hash : Hash} : hash ∈ uniqueRoots values ↔ hash ∈ values := by
  simp [uniqueRoots, mem_uniqueLoop]

theorem mem_refs {treeHash hash : Hash} {directory : Bool} :
    (hash, directory) ∈ b.refs treeHash ↔
      ∃ entries entry, b.loadTreeEntries treeHash = .ok entries ∧ entry ∈ entries ∧
        entry.hashArray = .ok hash ∧ decide (entry.kind = 1) = directory := by
  have href : ∀ entry : TreeEntry, entry.ref = some (hash, directory) ↔
      entry.hashArray = .ok hash ∧ decide (entry.kind = 1) = directory := by
    intro entry
    rw [TreeEntry.ref]
    cases entry.hashArray with
    | error e => simp
    | ok h => simp
  rw [TreeSource.refs]
  cases b.loadTreeEntries treeHash with
  | error e => simp
  | ok entries => simp [List.mem_filterMap, href]

/-- What is reachable is what the references of the roots mention. -/
theorem reachable_iff {hash : Hash} {directory : Bool} :
    b.Reachable values hash directory ↔ Mentions b.refs (rootRefs values) hash directory := by
  constructor
  · intro h
    induction h with
    | root hmem => exact .here (List.mem_map.mpr ⟨_, mem_uniqueRoots.mpr hmem, rfl⟩)
    | entry _ hload hmem hhash ih =>
        exact ih.snoc (mem_refs.mpr ⟨_, _, hload, hmem, hhash, rfl⟩)
  · intro h
    refine h.holds (fun r hr => ?_) fun treeHash htree r hr => ?_
    · obtain ⟨root, hroot, rfl⟩ := List.mem_map.mp hr
      exact .root (mem_uniqueRoots.mp hroot)
    · obtain ⟨entries, entry, hload, hmem, hhash, hkind⟩ := mem_refs.mp hr
      exact hkind ▸ .entry htree hload hmem hhash

/-! ### The walk -/

/-- The total of a walk over natural numbers as the code has it. -/
def wrapTotal (r : ℕ × Finset Hash) : UInt64 × Finset Hash := (UInt64.ofNat r.1, r.2)

/-- The size of a blob, as the weight of a mark. -/
def TreeSource.weight (b : TreeSource) (hash : Hash) : ℕ := (b.rawLen hash).toNat

theorem ofNat_add_weight (total : ℕ) (hash : Hash) :
    UInt64.ofNat (total + b.weight hash) = UInt64.ofNat total + b.rawLen hash := by
  rw [UInt64.ofNat_add, TreeSource.weight, UInt64.ofNat_toNat]

/-- The loop over the entries of a tree goes over its references. -/
theorem entriesLoop_eq {computeTreeSize : Hash → Finset Hash → Option (UInt64 × Finset Hash)}
    {openAt : Hash → Finset Hash → Option (ℕ × Finset Hash)}
    (hopen : ∀ hash visited, computeTreeSize hash visited = (openAt hash visited).map wrapTotal)
    (entries : List TreeEntry) (total : ℕ) (visited : Finset Hash) :
    b.entriesLoop computeTreeSize entries (UInt64.ofNat total) visited =
      (visitAll b.weight openAt (entries.filterMap TreeEntry.ref) total visited).map
        wrapTotal := by
  induction entries generalizing total visited with
  | nil => rfl
  | cons entry entries ih =>
      rw [TreeSource.entriesLoop, List.filterMap_cons, TreeEntry.ref]
      cases entry.hashArray with
      | error e => exact ih total visited
      | ok hash =>
          by_cases hkind : entry.kind = 1
          · simp only [hkind, if_true, decide_true, visitAll, hopen]
            cases openAt hash visited with
            | none => rfl
            | some r => exact (congrArg₂ _ (UInt64.ofNat_add ..).symm rfl).trans (ih _ _)
          · simp only [hkind, if_false, decide_false, visitAll]
            split
            · exact ih total visited
            · rw [← ih, ofNat_add_weight]

/-- `compute_tree_size` opens a place. -/
theorem computeTreeSize_eq (fuel : ℕ) (treeHash : Hash) (visited : Finset Hash) :
    b.computeTreeSize fuel treeHash visited =
      (openPlace b.refs b.weight fuel treeHash visited).map wrapTotal := by
  induction fuel generalizing treeHash visited with
  | zero => rfl
  | succ fuel ih =>
      have htotal : b.rawLen treeHash = UInt64.ofNat (b.weight treeHash) :=
        UInt64.ofNat_toNat.symm
      rw [TreeSource.computeTreeSize, openPlace, TreeSource.refs, htotal]
      split
      · rfl
      · cases b.loadTreeEntries treeHash with
        | error e => rfl
        | ok entries => exact entriesLoop_eq ih entries _ _

/-- The loop over the roots goes over the references to them. -/
theorem rootsLoop_eq (fuel : ℕ) (roots : List Hash) (total : ℕ) (visited : Finset Hash) :
    b.rootsLoop fuel roots (UInt64.ofNat total) visited =
      (visitAll b.weight (openPlace b.refs b.weight fuel) (roots.map fun hash => (hash, true))
        total visited).map fun r => UInt64.ofNat r.1 := by
  induction roots generalizing total visited with
  | nil => rfl
  | cons root roots ih =>
      rw [TreeSource.rootsLoop, computeTreeSize_eq, List.map_cons, visitAll]
      cases openPlace b.refs b.weight fuel root visited with
      | none => rfl
      | some r => exact (congrArg₂ _ (UInt64.ofNat_add ..).symm rfl).trans (ih _ _)

/-- **The function is a walk** over the references to the roots. -/
theorem computeFsContentBytes_eq (fuel : ℕ) (values : List Hash) :
    b.computeFsContentBytes fuel values =
      ((walk b.refs b.weight fuel (rootRefs values)).map Prod.fst).map UInt64.ofNat := by
  rw [TreeSource.computeFsContentBytes, Option.map_map]
  split
  next h =>
    rw [rootRefs, h]
    rfl
  · exact rootsLoop_eq fuel (uniqueRoots values) 0 ∅

/-! ### What is counted -/

/-- Only blobs refer to anything. -/
theorem mem_index_of_refs {treeHash : Hash} (h : b.refs treeHash ≠ []) :
    treeHash ∈ b.store.index.keys := by
  by_contra hnot
  refine h ?_
  have hlookup : b.store.index.lookup treeHash = none :=
    Finmap.lookup_eq_none.mpr fun hmem => hnot (Finmap.mem_keys.mpr hmem)
  rw [TreeSource.refs, TreeSource.loadTreeEntries, TreeSource.get, BlobStore.get, hlookup]
  rfl

/-- What is reachable depends on the roots, not on their order. -/
theorem TreeSource.Reachable.of_roots {values' : List Hash} {hash : Hash} {directory : Bool}
    (hvalues : ∀ hash ∈ values, hash ∈ values') (h : b.Reachable values hash directory) :
    b.Reachable values' hash directory := by
  induction h with
  | root hmem => exact .root (hvalues _ hmem)
  | entry _ hload hmem hhash ih => exact .entry ih hload hmem hhash

theorem computeFsContentBytes_eq_sum (h : b.NothingHidden values) {all : Finset Hash}
    (hall : ∀ hash, hash ∈ all ↔ ∃ directory, b.Reachable values hash directory) {fuel : ℕ}
    (hfuel : b.store.index.keys.card < fuel) :
    b.computeFsContentBytes fuel values =
      some (UInt64.ofNat (∑ hash ∈ all, (b.rawLen hash).toNat)) := by
  have hsafe : ∀ hash directory, Mentions b.refs (rootRefs values) hash directory →
      b.weight hash ≠ 0 → SafelyMentioned b.refs (rootRefs values) hash := by
    intro hash directory hm hweight
    refine h hash directory (reachable_iff.mpr hm) fun hzero => hweight ?_
    rw [TreeSource.weight, hzero]
    rfl
  have hsum := walk_eq_sum (fun _ => mem_index_of_refs) hfuel hsafe fun hash =>
    (hall hash).trans (exists_congr fun _ => reachable_iff)
  rw [computeFsContentBytes_eq, hsum]
  rfl

/-- **Everything that is reachable is counted**, once, where nothing is hidden behind a file:
the function ends, and comes to the lengths of all hashes that are reachable, in whatever order
the roots come. -/
theorem content_bytes_counted (h : b.NothingHidden values) :
    ∃ all : Finset Hash, (∀ hash, hash ∈ all ↔ ∃ directory, b.Reachable values hash directory) ∧
      ∀ fuel, b.store.index.keys.card < fuel →
        b.computeFsContentBytes fuel values =
            some (UInt64.ofNat (∑ hash ∈ all, (b.rawLen hash).toNat)) ∧
          ∀ values', (∀ hash, hash ∈ values' ↔ hash ∈ values) → b.NothingHidden values' →
            b.computeFsContentBytes fuel values' = b.computeFsContentBytes fuel values := by
  obtain ⟨all, hall⟩ := exists_mentioned (fun _ => mem_index_of_refs) (rootRefs values)
  replace hall : ∀ hash, hash ∈ all ↔ ∃ directory, b.Reachable values hash directory :=
    fun hash => (hall hash).trans (exists_congr fun _ => reachable_iff.symm)
  refine ⟨all, hall, fun fuel hfuel => ⟨computeFsContentBytes_eq_sum h hall hfuel, ?_⟩⟩
  intro values' hvalues h'
  have hall' : ∀ hash, hash ∈ all ↔ ∃ directory, b.Reachable values' hash directory :=
    fun hash => (hall hash).trans (exists_congr fun _ =>
      ⟨.of_roots fun _ => (hvalues _).mpr, .of_roots fun _ => (hvalues _).mp⟩)
  rw [computeFsContentBytes_eq_sum h' hall' hfuel, computeFsContentBytes_eq_sum h hall hfuel]

/-! ### A directory that was met as a file -/

/-- A file with the letter `x`, by its BLAKE3 hash. -/
def letterHash : Hash :=
  ⟨[58, 231, 216, 5, 246, 120, 154, 100, 2, 172, 183, 10, 212, 9, 106, 133, 165, 107, 246, 128,
    78, 175, 37, 192, 73, 58, 198, 151, 84, 141, 48, 181], rfl⟩

/-- A tree with that file, named `x`. -/
def innerTree : Bytes :=
  [0x91, 0x83, 0x01, 0xa1, 0x78, 0x02, 0x00, 0x05, 0xc4, 0x20] ++ letterHash.toList

def innerHash : Hash :=
  ⟨[204, 194, 114, 108, 121, 202, 35, 229, 223, 20, 102, 172, 195, 7, 220, 46, 72, 202, 61, 100,
    142, 107, 129, 50, 193, 156, 107, 43, 19, 18, 248, 150], rfl⟩

/-- A tree with a file `a` and a directory `b`: the file has the bytes of the directory. -/
def outerTree : Bytes :=
  [0x92, 0x83, 0x01, 0xa1, 0x61, 0x02, 0x00, 0x05, 0xc4, 0x20] ++ innerHash.toList ++
    ([0x83, 0x01, 0xa1, 0x62, 0x02, 0x01, 0x05, 0xc4, 0x20] ++ innerHash.toList)

def outerHash : Hash :=
  ⟨[108, 145, 189, 70, 51, 233, 172, 35, 88, 72, 27, 114, 6, 181, 63, 190, 203, 214, 26, 232, 22,
    61, 70, 117, 82, 0, 218, 221, 32, 20, 242, 112], rfl⟩

/-- The value that a map for one entry is read as. -/
def entryValue (name : String) (kind : ℤ) (hash : Hash) : MsgpackValue :=
  .map [(.integer 1, .string (some name)), (.integer 2, .integer kind),
    (.integer 5, .binary hash.toList)]

/-- The three blobs, put into an empty store one after another. -/
def nestedBlobs : BlobStore × DataDir :=
  [(letterHash, [0x78]), (innerHash, innerTree), (outerHash, outerTree)].foldl
    (fun s blob => (runCall (putIfAbsent rawBlockZstd blob.1 blob.2) s.1 s.2 none).2)
    ({ index := ∅ }, fun _ => [])

def nestedSource : TreeSource where
  zstd := rawBlockZstd
  readValue bs :=
    if bs = innerTree then .ok (.array [entryValue "x" 0 letterHash])
    else if bs = outerTree then
      .ok (.array [entryValue "a" 0 innerHash, entryValue "b" 1 innerHash])
    else if bs = [0x78] then .ok (.integer 0x78)
    else .error "not a tree"
  store := nestedBlobs.1
  pack := nestedBlobs.2 .blobsPack

set_option maxRecDepth 10000 in
theorem nestedSource_refs :
    nestedSource.refs outerHash = [(innerHash, false), (innerHash, true)] ∧
      nestedSource.refs innerHash = [(letterHash, false)] ∧
      nestedSource.refs letterHash = [] := by
  decide +kernel

/-- The three blobs are reachable wherever the outer tree is a root and no other tree is. -/
theorem mem_nested_iff {values : List Hash} (houter : outerHash ∈ values)
    (hroots : ∀ hash ∈ values, hash = outerHash ∨ hash = innerHash) (hash : Hash) :
    hash ∈ ({outerHash, innerHash, letterHash} : Finset Hash) ↔
      ∃ directory, nestedSource.Reachable values hash directory := by
  obtain ⟨hrefs₁, hrefs₂, hrefs₃⟩ := nestedSource_refs
  have hin : Mentions nestedSource.refs (rootRefs values) innerHash true :=
    (reachable_iff.mp (.root houter)).snoc (by simp [hrefs₁])
  simp only [Finset.mem_insert, Finset.mem_singleton, reachable_iff]
  constructor
  · rintro (rfl | rfl | rfl)
    · exact ⟨true, reachable_iff.mp (.root houter)⟩
    · exact ⟨true, hin⟩
    · exact ⟨false, hin.snoc (by simp [hrefs₂])⟩
  · rintro ⟨directory, h⟩
    refine h.holds (p := fun hash _ => hash = outerHash ∨ hash = innerHash ∨ hash = letterHash)
      (fun r hr => ?_) fun treeHash htree r hr => ?_
    · obtain ⟨root, hroot, rfl⟩ := List.mem_map.mp hr
      exact (hroots root (mem_uniqueRoots.mp hroot)).imp_right .inl
    · rcases htree with rfl | rfl | rfl
      · rw [hrefs₁] at hr
        rcases List.mem_pair.mp hr with rfl | rfl
        · exact .inr (.inl rfl)
        · exact .inr (.inl rfl)
      · rw [hrefs₂] at hr
        obtain rfl := List.mem_singleton.mp hr
        exact .inr (.inr rfl)
      · rw [hrefs₃] at hr
        exact absurd hr List.not_mem_nil

set_option maxRecDepth 10000 in
/-- The two trees as roots, the inner one first. -/
theorem content_bytes_counted_nestedSource :
    nestedSource.computeFsContentBytes 4 [innerHash, outerHash] = some 126 := by
  have hmem : ∀ hash, hash ∈ ({outerHash, innerHash, letterHash} : Finset Hash) ↔
      ∃ directory, nestedSource.Reachable [innerHash, outerHash] hash directory :=
    mem_nested_iff (by simp) (by simp)
  have hroots : rootRefs [innerHash, outerHash] = [(innerHash, true), (outerHash, true)] := by
    decide
  have hhidden : nestedSource.NothingHidden [innerHash, outerHash] := by
    intro hash directory h _
    have hin := (hmem hash).mpr ⟨directory, h⟩
    simp only [Finset.mem_insert, Finset.mem_singleton] at hin
    rw [hroots]
    rcases hin with rfl | rfl | rfl
    · exact .inl ⟨true, by simp⟩
    · exact .inl ⟨true, by simp⟩
    · refine .inr ⟨[], innerHash, .root rfl fun hm => ?_, false, by simp [nestedSource_refs]⟩
      exact (items_nil nestedSource.refs).subset hm
  obtain ⟨all, hall, hcounted⟩ := content_bytes_counted hhidden
  obtain rfl : all = {outerHash, innerHash, letterHash} :=
    Finset.ext fun hash => (hall hash).trans (hmem hash).symm
  rw [(hcounted 4 (by decide)).1]
  decide

set_option maxRecDepth 10000 in
/-- **A tree that was met as a file is not opened**: the letter in it is not counted. -/
theorem hidden_tree_uncounted :
    ¬ ∃ all : Finset Hash,
      (∀ hash, hash ∈ all ↔ ∃ directory, nestedSource.Reachable [outerHash] hash directory) ∧
        ∀ fuel, nestedSource.store.index.keys.card < fuel →
          nestedSource.computeFsContentBytes fuel [outerHash] =
            some (UInt64.ofNat (∑ hash ∈ all, (nestedSource.rawLen hash).toNat)) := by
  rintro ⟨all, hall, hcounted⟩
  obtain rfl : all = {outerHash, innerHash, letterHash} :=
    Finset.ext fun hash => (hall hash).trans (mem_nested_iff (by simp) (by simp) hash).symm
  have hbytes : nestedSource.computeFsContentBytes 4 [outerHash] = some 125 := by decide +kernel
  rw [hcounted 4 (by decide)] at hbytes
  have hsum : ∑ hash ∈ {outerHash, innerHash, letterHash},
      (nestedSource.rawLen hash).toNat = 126 := by decide
  rw [hsum] at hbytes
  exact absurd hbytes (by decide)

end Cxdb.FsStore
