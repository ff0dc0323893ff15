import Cxdb.FsTrees
import Cxdb.BlobSystem

/-!
# Paths in a Snapshot

`resolve_path` and `get_file_at_path` walk down the trees of a snapshot in a loop each. Both
loops are the same walk: it ends at the entry for the last part of the path, or with an error
that is neither of the two that `get_file_at_path` has of its own. What a path leads to depends
on its parts alone, but the error for a directory quotes the path.

## Main results

* `resolveLoop_eq`, `fileLoop_eq`: the two loops as one walk.
* `walk_eq_ok_iff`: the walk ends at what the path reaches.
* `paths_agree`: the two functions say the same of every path.
* `isDirectoryError_of_parts`: two spellings of one path have different errors.
-/

open ByteFormat FaultyDisk

namespace Cxdb.FsStore

variable {b : TreeSource}

/-! ### The walk -/

/-- The entry of a tree for one part of a path, with its hash. -/
def TreeSource.entryAt (b : TreeSource) (treeHash : Hash) (part : String) :
    Except StoreError (TreeEntry × Hash) := do
  let entries ← b.loadTreeEntries treeHash
  match entries.find? fun e => e.name = part with
  | none => throw (.notFound ("path component not found: " ++ part))
  | some entry =>
    let entryHash ← entry.hashArray
    return (entry, entryHash)

/-- A walk from a tree: directories for all parts but the last. -/
def TreeSource.walk (b : TreeSource) :
    Hash → String → List String → Except StoreError (TreeEntry × Hash)
  | treeHash, part, [] => b.entryAt treeHash part
  | treeHash, part, next :: rest => do
    let (entry, entryHash) ← b.entryAt treeHash part
    if entry.kindEnum ≠ .directory then throw (.invalidInput ("not a directory: " ++ part))
    b.walk entryHash next rest

/-- A path reaches an entry: the trees on the way are those of directories. -/
inductive TreeSource.Reaches (b : TreeSource) : Hash → List String → TreeEntry → Hash → Prop
  | last {treeHash : Hash} {part : String} {entry : TreeEntry} {entryHash : Hash} :
      b.entryAt treeHash part = .ok (entry, entryHash) →
      b.Reaches treeHash [part] entry entryHash
  | into {treeHash : Hash} {part next : String} {rest : List String} {entry : TreeEntry}
      {entryHash : Hash} {target : TreeEntry} {hash : Hash} :
      b.entryAt treeHash part = .ok (entry, entryHash) → entry.kindEnum = .directory →
      b.Reaches entryHash (next :: rest) target hash →
      b.Reaches treeHash (part :: next :: rest) target hash

theorem walk_next_of_error {treeHash : Hash} {part next : String} {rest : List String}
    {e : StoreError} (he : b.entryAt treeHash part = .error e) :
    b.walk treeHash part (next :: rest) = .error e := by
  rw [TreeSource.walk, he]
  rfl

theorem walk_next_of_ok {treeHash : Hash} {part next : String} {rest : List String}
    {entry : TreeEntry} {entryHash : Hash} (he : b.entryAt treeHash part = .ok (entry, entryHash)) :
    b.walk treeHash part (next :: rest) =
      if entry.kindEnum = .directory then b.walk entryHash next rest
      else .error (.invalidInput ("not a directory: " ++ part)) := by
  rw [TreeSource.walk, he]
  by_cases hdir : entry.kindEnum = .directory
  · rw [if_pos hdir]
    exact if_neg (not_not_intro hdir)
  · rw [if_neg hdir]
    exact if_pos hdir

/-- The walk ends at what the path reaches. -/
theorem walk_eq_ok_iff {treeHash : Hash} {part : String} {rest : List String} {target : TreeEntry}
    {hash : Hash} :
    b.walk treeHash part rest = .ok (target, hash) ↔
      b.Reaches treeHash (part :: rest) target hash := by
  induction rest generalizing treeHash part with
  | nil =>
      refine ⟨.last, fun h => ?_⟩
      cases h with
      | last he => exact he
  | cons next rest ih =>
      constructor
      · intro h
        cases he : b.entryAt treeHash part with
        | error e => simp [walk_next_of_error he] at h
        | ok found =>
            rw [walk_next_of_ok he] at h
            split at h
            next hdir => exact .into he hdir (ih.mp h)
            · simp at h
      · intro h
        cases h with
        | into he hdir hrest => rw [walk_next_of_ok he, if_pos hdir, ih.mpr hrest]

/-- Only paths with parts reach an entry. -/
theorem exists_walk_of_reaches {treeHash : Hash} {parts : List String} {entry : TreeEntry}
    {hash : Hash} (h : b.Reaches treeHash parts entry hash) :
    ∃ part rest, parts = part :: rest ∧ b.walk treeHash part rest = .ok (entry, hash) := by
  cases h with
  | last he => exact ⟨_, _, rfl, he⟩
  | into he hdir hrest => exact ⟨_, _, rfl, walk_eq_ok_iff.mpr (.into he hdir hrest)⟩

/-! ### The loops -/

/-- One pass of the loop of `resolve_path`. -/
theorem resolveLoop_cons (treeHash : Hash) (part : String) (rest : List String) :
    b.resolveLoop treeHash (part :: rest) = (b.entryAt treeHash part).bind fun found =>
      if rest = [] then .ok (found.2, decide (found.1.kindEnum = .directory))
      else if found.1.kindEnum = .directory then b.resolveLoop found.2 rest
      else .error (.invalidInput ("not a directory: " ++ part)) := by
  rw [TreeSource.resolveLoop, TreeSource.entryAt]
  rcases b.loadTreeEntries treeHash with e | entries
  · rfl
  dsimp only [bind, Except.bind]
  generalize List.find? _ entries = found
  rcases found with _ | entry
  · rfl
  dsimp only
  rcases entry.hashArray with e | entryHash
  · rfl
  dsimp only [pure, Except.pure]
  by_cases hrest : rest = []
  · rw [if_pos hrest, if_pos hrest]
  · rw [if_neg hrest, if_neg hrest, ite_not]
    rfl

/-- One pass of the loop of `get_file_at_path`. -/
theorem fileLoop_cons (path : String) (treeHash : Hash) (part : String) (rest : List String) :
    b.fileLoop path treeHash (part :: rest) = (b.entryAt treeHash part).bind fun found =>
      if rest = [] then
        if found.1.kindEnum = .directory then .error (isDirectoryError path)
        else (b.get found.2).map (·, found.1)
      else if found.1.kindEnum = .directory then b.fileLoop path found.2 rest
      else .error (.invalidInput ("not a directory: " ++ part)) := by
  rw [TreeSource.fileLoop, TreeSource.entryAt]
  rcases b.loadTreeEntries treeHash with e | entries
  · rfl
  dsimp only [bind, Except.bind]
  generalize List.find? _ entries = found
  rcases found with _ | entry
  · rfl
  dsimp only
  rcases entry.hashArray with e | entryHash
  · rfl
  dsimp only [pure, Except.pure]
  by_cases hrest : rest = []
  · rw [if_pos hrest, if_pos hrest]
    cases entry.kindEnum with
    | file | symlink =>
        rcases b.get entryHash with e | content
        · rfl
        · rfl
    | directory => rfl
  · rw [if_neg hrest, if_neg hrest, ite_not]
    rfl

/-- The loop of `resolve_path` is the walk. -/
theorem resolveLoop_eq (treeHash : Hash) (part : String) (rest : List String) :
    b.resolveLoop treeHash (part :: rest) =
      (b.walk treeHash part rest).map fun r => (r.2, decide (r.1.kindEnum = .directory)) := by
  induction rest generalizing treeHash part with
  | nil =>
      rw [resolveLoop_cons, TreeSource.walk]
      rcases b.entryAt treeHash part with e | found
      · rfl
      · rfl
  | cons next rest ih =>
      rw [resolveLoop_cons]
      cases he : b.entryAt treeHash part with
      | error e =>
          rw [walk_next_of_error he]
          rfl
      | ok found =>
          rw [walk_next_of_ok he]
          by_cases hdir : found.1.kindEnum = .directory
          · rw [if_pos hdir, ← ih]
            simp [Except.bind, hdir]
          · rw [if_neg hdir]
            simp [Except.bind, Except.map, hdir]

/-- The loop of `get_file_at_path` is the walk, and reading the blob at its end. -/
theorem fileLoop_eq (path : String) (treeHash : Hash) (part : String) (rest : List String) :
    b.fileLoop path treeHash (part :: rest) = (b.walk treeHash part rest).bind fun r =>
      if r.1.kindEnum = .directory then .error (isDirectoryError path)
      else (b.get r.2).map (·, r.1) := by
  induction rest generalizing treeHash part with
  | nil =>
      rw [fileLoop_cons, TreeSource.walk]
      simp only [if_true]
  | cons next rest ih =>
      rw [fileLoop_cons]
      cases he : b.entryAt treeHash part with
      | error e =>
          rw [walk_next_of_error he]
          rfl
      | ok found =>
          rw [walk_next_of_ok he]
          by_cases hdir : found.1.kindEnum = .directory
          · rw [if_pos hdir, ← ih]
            simp [Except.bind, hdir]
          · rw [if_neg hdir]
            simp [Except.bind, hdir]

/-! ### Errors -/

/-- An error that is neither of the two that `get_file_at_path` has of its own. -/
def Shared (e : StoreError) : Prop := (∀ path, e ≠ isDirectoryError path) ∧ e ≠ emptyPathError

theorem shared_notDirectory (part : String) :
    Shared (.invalidInput ("not a directory: " ++ part)) := by
  refine ⟨fun path h => ?_, fun h => ?_⟩
  · have hchars := congrArg String.toList (StoreError.invalidInput.inj h)
    simp at hchars
  · have hchars := congrArg String.toList (StoreError.invalidInput.inj h)
    simp at hchars

theorem shared_of_neverInvalid {α : Type} {x : Except StoreError α} {e : StoreError}
    (hx : NeverInvalid x) (h : x = .error e) : Shared e :=
  ⟨fun _ he => hx _ (he ▸ h), fun he => hx _ (he ▸ h)⟩

theorem parseTreeEntry_neverInvalid (value : MsgpackValue) :
    NeverInvalid (parseTreeEntry value) := by
  rw [parseTreeEntry.eq_def]
  split
  · exact .ok _
  · exact .corrupt _

theorem mapM_neverInvalid {α β : Type} {f : α → Except StoreError β}
    (hf : ∀ a, NeverInvalid (f a)) (as : List α) : NeverInvalid (as.mapM f) := by
  induction as with
  | nil => exact .ok _
  | cons a as ih =>
      rw [List.mapM_cons]
      exact .bind (hf a) fun _ => .bind ih fun _ => .ok _

theorem loadTreeEntries_neverInvalid (b : TreeSource) (treeHash : Hash) :
    NeverInvalid (b.loadTreeEntries treeHash) := by
  refine .bind (BlobStore.get_neverInvalid _ _ _ _) fun bytes => ?_
  rw [TreeSource.parseTreeEntries]
  split
  · exact .corrupt _
  · exact mapM_neverInvalid parseTreeEntry_neverInvalid _
  · exact .corrupt _

theorem entryAt_neverInvalid (b : TreeSource) (treeHash : Hash) (part : String) :
    NeverInvalid (b.entryAt treeHash part) := by
  refine .bind (loadTreeEntries_neverInvalid b treeHash) fun entries => ?_
  split
  · simp [NeverInvalid, throw, throwThe, MonadExceptOf.throw]
  next entry _ =>
    refine .bind ?_ fun _ => .ok _
    rw [TreeEntry.hashArray]
    split
    · exact .ok _
    · exact .corrupt _

/-- The walk fails with shared errors only. -/
theorem shared_of_walk {treeHash : Hash} {part : String} {rest : List String} {e : StoreError}
    (h : b.walk treeHash part rest = .error e) : Shared e := by
  induction rest generalizing treeHash part with
  | nil => exact shared_of_neverInvalid (entryAt_neverInvalid b treeHash part) h
  | cons next rest ih =>
      cases he : b.entryAt treeHash part with
      | error e' =>
          rw [walk_next_of_error he] at h
          exact Except.error.inj h ▸ shared_of_neverInvalid (entryAt_neverInvalid _ _ _) he
      | ok found =>
          rw [walk_next_of_ok he] at h
          split at h
          · exact ih h
          · exact Except.error.inj h ▸ shared_notDirectory part

/-! ### Agreement -/

/-- A path without parts is the root. -/
theorem resolvePath_eq (rootHash : Hash) (path : String) :
    b.resolvePath rootHash path = b.resolveLoop rootHash (pathParts path) := by
  rw [TreeSource.resolvePath]
  split
  next h =>
    have hparts : pathParts path = [] := by
      rcases h with rfl | rfl <;> simp [pathParts_eq]
    rw [hparts, TreeSource.resolveLoop]
  · rfl

/-- What `resolve_path` and `get_file_at_path` make of one path. -/
structure TreeSource.PathsAgree (b : TreeSource) (rootHash : Hash) (path : String) : Prop where
  /-- A blob is resolved where it is read, or fails to be read. -/
  blob : ∀ hash, b.resolvePath rootHash path = .ok (hash, false) ↔
    ∃ entry, b.Reaches rootHash (partsBetween path.toList) entry hash ∧
      b.getFileAtPath rootHash path = (b.get hash).map (·, entry)
  directory : (∃ hash, b.resolvePath rootHash path = .ok (hash, true)) ↔
    b.getFileAtPath rootHash path = .error (isDirectoryError path) ∨
      b.getFileAtPath rootHash path = .error emptyPathError
  /-- The hash of a directory is the root, or the one that the path reaches. -/
  directoryHash : ∀ hash, b.resolvePath rootHash path = .ok (hash, true) →
    (partsBetween path.toList = [] ∧ hash = rootHash) ∨
      ∃ entry, b.Reaches rootHash (partsBetween path.toList) entry hash
  failure : ∀ e, b.resolvePath rootHash path = .error e ↔
    b.getFileAtPath rootHash path = .error e ∧ e ≠ isDirectoryError path ∧
      e ≠ emptyPathError ∧
      ∀ entry hash, ¬ b.Reaches rootHash (partsBetween path.toList) entry hash

/-- A path without parts. -/
theorem pathsAgree_of_no_parts {rootHash : Hash} {path : String}
    (hparts : partsBetween path.toList = []) : b.PathsAgree rootHash path := by
  have hresolve : b.resolvePath rootHash path = .ok (rootHash, true) := by
    rw [resolvePath_eq, pathParts_eq, hparts, TreeSource.resolveLoop]
  have hfile : b.getFileAtPath rootHash path = .error emptyPathError := by
    rw [TreeSource.getFileAtPath, pathParts_eq, hparts, TreeSource.fileLoop]
  have hnone : ∀ entry hash, ¬ b.Reaches rootHash (partsBetween path.toList) entry hash := by
    intro entry hash h
    obtain ⟨part, rest, heq, -⟩ := exists_walk_of_reaches h
    rw [hparts] at heq
    exact absurd heq (by simp)
  constructor
  · intro hash
    rw [hresolve]
    exact ⟨fun h => by simp at h, fun ⟨entry, hreach, _⟩ => absurd hreach (hnone entry hash)⟩
  · exact ⟨fun _ => .inr hfile, fun _ => ⟨rootHash, hresolve⟩⟩
  · intro hash h
    rw [hresolve] at h
    exact .inl ⟨hparts, (Prod.mk.inj (Except.ok.inj h)).1.symm⟩
  · intro e
    rw [hresolve, hfile]
    exact ⟨fun h => by simp at h, fun h => absurd (Except.error.inj h.1).symm h.2.2.1⟩

/-- A path on which the walk fails. -/
theorem pathsAgree_of_error {rootHash : Hash} {path part : String} {rest : List String}
    (hparts : partsBetween path.toList = part :: rest) {e : StoreError}
    (hwalk : b.walk rootHash part rest = .error e) : b.PathsAgree rootHash path := by
  have hresolve : b.resolvePath rootHash path = .error e := by
    rw [resolvePath_eq, pathParts_eq, hparts, resolveLoop_eq, hwalk]
    rfl
  have hfile : b.getFileAtPath rootHash path = .error e := by
    rw [TreeSource.getFileAtPath, pathParts_eq, hparts, fileLoop_eq, hwalk]
    rfl
  have hnone : ∀ entry hash, ¬ b.Reaches rootHash (partsBetween path.toList) entry hash := by
    intro entry hash h
    rw [hparts, ← walk_eq_ok_iff, hwalk] at h
    simp at h
  obtain ⟨hdir, hempty⟩ := shared_of_walk hwalk
  constructor
  · intro hash
    rw [hresolve]
    exact ⟨fun h => by simp at h, fun ⟨entry, hreach, _⟩ => absurd hreach (hnone entry hash)⟩
  · rw [hresolve, hfile]
    simp [hdir path, hempty]
  · intro hash h
    simp [hresolve] at h
  · intro e'
    rw [hresolve, hfile]
    refine ⟨fun h => ?_, fun h => congrArg Except.error (Except.error.inj h.1)⟩
    obtain rfl := Except.error.inj h
    exact ⟨rfl, hdir path, hempty, hnone⟩

/-- A path that reaches an entry. -/
theorem pathsAgree_of_reaches {rootHash : Hash} {path : String} {entry : TreeEntry} {hash : Hash}
    (h : b.Reaches rootHash (partsBetween path.toList) entry hash) :
    b.PathsAgree rootHash path := by
  obtain ⟨part, rest, hparts, hwalk⟩ := exists_walk_of_reaches h
  have hresolve : b.resolvePath rootHash path =
      .ok (hash, decide (entry.kindEnum = .directory)) := by
    rw [resolvePath_eq, pathParts_eq, hparts, resolveLoop_eq, hwalk]
    rfl
  have hfile : b.getFileAtPath rootHash path =
      if entry.kindEnum = .directory then .error (isDirectoryError path)
      else (b.get hash).map (·, entry) := by
    rw [TreeSource.getFileAtPath, pathParts_eq, hparts, fileLoop_eq, hwalk]
    rfl
  have hunique : ∀ entry' hash', b.Reaches rootHash (partsBetween path.toList) entry' hash' →
      entry' = entry ∧ hash' = hash := by
    intro entry' hash' h'
    rw [hparts, ← walk_eq_ok_iff, hwalk] at h'
    exact Prod.mk.inj (Except.ok.inj h'.symm)
  have hread : ∀ hash' (entry' : TreeEntry), NeverInvalid ((b.get hash').map (·, entry')) :=
    fun hash' _ => (BlobStore.get_neverInvalid b.zstd b.store b.pack hash').map _
  by_cases hdir : entry.kindEnum = .directory
  · rw [decide_eq_true hdir] at hresolve
    rw [if_pos hdir] at hfile
    constructor
    · intro hash'
      rw [hresolve, hfile]
      exact ⟨fun h => by simp at h, fun ⟨entry', _, h⟩ => absurd h.symm (hread hash' entry' _)⟩
    · exact ⟨fun _ => .inl hfile, fun _ => ⟨hash, hresolve⟩⟩
    · intro hash' h'
      rw [hresolve] at h'
      obtain ⟨rfl, -⟩ := Prod.mk.inj (Except.ok.inj h')
      exact .inr ⟨entry, h⟩
    · intro e
      rw [hresolve]
      exact ⟨fun h' => by simp at h', fun h' => absurd h (h'.2.2.2 entry hash)⟩
  · rw [decide_eq_false hdir] at hresolve
    rw [if_neg hdir] at hfile
    constructor
    · intro hash'
      constructor
      · intro h'
        rw [hresolve] at h'
        obtain ⟨rfl, -⟩ := Prod.mk.inj (Except.ok.inj h')
        exact ⟨entry, h, hfile⟩
      · rintro ⟨entry', hreach, -⟩
        rw [hresolve, (hunique entry' hash' hreach).2]
    · rw [hresolve, hfile]
      constructor
      · simp
      · rintro (h' | h')
        · exact absurd h' (hread hash entry _)
        · exact absurd h' (hread hash entry _)
    · intro hash' h'
      simp [hresolve] at h'
    · intro e
      rw [hresolve]
      exact ⟨fun h' => by simp at h', fun h' => absurd h (h'.2.2.2 entry hash)⟩

/-- What a path leads to depends on its parts, and so does its error, but for the path that the
error for a directory quotes. -/
theorem getFileAtPath_of_parts {rootHash : Hash} {path path' : String}
    (hparts : partsBetween path'.toList = partsBetween path.toList) :
    b.getFileAtPath rootHash path' = b.getFileAtPath rootHash path ∨
      b.getFileAtPath rootHash path = .error (isDirectoryError path) ∧
        b.getFileAtPath rootHash path' = .error (isDirectoryError path') := by
  rw [TreeSource.getFileAtPath, TreeSource.getFileAtPath, pathParts_eq, pathParts_eq, hparts]
  rcases partsBetween path.toList with _ | ⟨part, rest⟩
  · exact .inl rfl
  · rw [fileLoop_eq, fileLoop_eq]
    rcases b.walk rootHash part rest with e | ⟨entry, hash⟩
    · exact .inl rfl
    · by_cases hdir : entry.kindEnum = .directory
      · exact .inr ⟨if_pos hdir, if_pos hdir⟩
      · exact .inl ((if_neg hdir).trans (if_neg hdir).symm)

/-- **Paths agree**: whatever the blobs are, the two functions say the same of a path, and what
they say depends on its parts that are neither empty nor a dot; only the error for a directory
quotes the path as it was given. -/
theorem paths_agree (b : TreeSource) (rootHash : Hash) (path : String) :
    b.PathsAgree rootHash path ∧ ∀ path', partsBetween path'.toList = partsBetween path.toList →
      b.resolvePath rootHash path' = b.resolvePath rootHash path ∧
        (b.getFileAtPath rootHash path' = b.getFileAtPath rootHash path ∨
          b.getFileAtPath rootHash path = .error (isDirectoryError path) ∧
            b.getFileAtPath rootHash path' = .error (isDirectoryError path')) := by
  refine ⟨?_, fun path' hparts => ⟨?_, getFileAtPath_of_parts hparts⟩⟩
  · rcases hparts : partsBetween path.toList with _ | ⟨part, rest⟩
    · exact pathsAgree_of_no_parts hparts
    · rcases hwalk : b.walk rootHash part rest with e | ⟨entry, hash⟩
      · exact pathsAgree_of_error hparts hwalk
      · exact pathsAgree_of_reaches (hparts ▸ walk_eq_ok_iff.mp hwalk)
  · rw [resolvePath_eq, resolvePath_eq, pathParts_eq, pathParts_eq, hparts]

/-- A tree with the one directory `d`, which is not stored itself. -/
def oneDirectoryTree : Bytes :=
  [0x91, 0x83, 0x01, 0xa1, 0x64, 0x02, 0x01, 0x05, 0xc4, 0x20] ++ List.replicate 32 0

/-- Its BLAKE3 hash. -/
def oneDirectoryHash : Hash :=
  ⟨[185, 217, 3, 40, 44, 8, 141, 58, 129, 4, 116, 254, 85, 165, 170, 163, 112, 51, 141, 155, 13,
    238, 137, 251, 87, 139, 207, 224, 208, 196, 101, 216], rfl⟩

/-- What reading the tree gives. -/
def oneDirectoryValue : MsgpackValue :=
  .array [.map [(.integer 1, .string (some "d")), (.integer 2, .integer 1),
    (.integer 5, .binary (List.replicate 32 0))]]

/-- A blob store into which the tree is put. -/
def oneDirectorySource : TreeSource :=
  let put := runCall (putIfAbsent rawBlockZstd oneDirectoryHash oneDirectoryTree) { index := ∅ }
    (fun _ => []) none
  { zstd := rawBlockZstd
    readValue := fun bs =>
      if bs = oneDirectoryTree then .ok oneDirectoryValue else .error "not a tree"
    store := put.2.1
    pack := put.2.2 .blobsPack }

set_option maxRecDepth 4000 in
theorem oneDirectorySource_get :
    oneDirectorySource.get oneDirectoryHash = .ok oneDirectoryTree := by
  decide +kernel

/-- The path `d` leads to a directory. -/
theorem oneDirectorySource_walk :
    oneDirectorySource.walk oneDirectoryHash "d" [] =
      .ok ({ name := "d", kind := 1, mode := 0, size := 0, hash := List.replicate 32 0 },
        List.Vector.replicate 32 0) := by
  have hload : oneDirectorySource.loadTreeEntries oneDirectoryHash =
      .ok [{ name := "d", kind := 1, mode := 0, size := 0, hash := List.replicate 32 0 }] := by
    rw [TreeSource.loadTreeEntries, oneDirectorySource_get]
    rfl
  rw [TreeSource.walk, TreeSource.entryAt, hload]
  rfl

/-- **The error for a directory quotes the path**, with a slash behind it or without. -/
theorem isDirectoryError_of_parts :
    partsBetween "d/".toList = partsBetween "d".toList ∧
      oneDirectorySource.getFileAtPath oneDirectoryHash "d/" ≠
        oneDirectorySource.getFileAtPath oneDirectoryHash "d" := by
  have hslash : partsBetween "d/".toList = partsBetween "d".toList :=
    partsBetween_concat_slash ['d']
  have hparts : partsBetween "d".toList = ["d"] := by
    simp [partsBetween, List.splitOn_eq_singleton]
  refine ⟨hslash, fun h => ?_⟩
  rw [TreeSource.getFileAtPath, TreeSource.getFileAtPath, pathParts_eq, pathParts_eq, hslash,
    hparts, fileLoop_eq, fileLoop_eq, oneDirectorySource_walk] at h
  have herror : isDirectoryError "d/" = isDirectoryError "d" := Except.error.inj h
  have hchars := congrArg String.toList (StoreError.invalidInput.inj herror)
  simp at hchars

end Cxdb.FsStore
