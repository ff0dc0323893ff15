import Mathlib.Data.List.DropRight
import Cxdb.BlobStore
import Cxdb.MetadataExtraction

/-!
# Snapshot Trees

`fs_store/mod.rs`, below the index of roots: a tree of a snapshot is a blob that holds a msgpack
array of maps, one for each entry of a directory, and a path is looked up from the root by one
tree for each of its parts. `resolve_path` and `get_file_at_path` both do that, each in a loop of
its own.

Reading msgpack is left to the `rmpv` crate, which is a parameter here, with the text of its
error.

## Main results

* `BlobStore.get_neverInvalid`: reading a blob never fails as an invalid input.
* `pathParts_eq`: the slashes that are trimmed off a path make no parts.
-/

open ByteFormat

namespace Cxdb

/-! ### Errors of reading -/

/-- A call that refuses no input. -/
def NeverInvalid {α : Type} (x : Except StoreError α) : Prop :=
  ∀ message, x ≠ .error (.invalidInput message)

namespace NeverInvalid

variable {α β : Type}

theorem ok (a : α) : NeverInvalid (.ok a : Except StoreError α) := by
  simp [NeverInvalid]

theorem corrupt (message : String) :
    NeverInvalid (.error (.corrupt message) : Except StoreError α) := by
  simp [NeverInvalid]

theorem bind {x : Except StoreError α} {f : α → Except StoreError β} (hx : NeverInvalid x)
    (hf : ∀ a, NeverInvalid (f a)) : NeverInvalid (x >>= f) := by
  intro message h
  cases x with
  | ok a => exact hf a message h
  | error e => exact hx message (congrArg Except.error (Except.error.inj h))

theorem map {x : Except StoreError α} (hx : NeverInvalid x) (f : α → β) :
    NeverInvalid (x.map f) := by
  intro message h
  cases x with
  | ok a => simp [Except.map] at h
  | error e => exact hx message (congrArg Except.error (Except.error.inj h))

/-- A check that ends the call as corrupt, and what comes after it. -/
theorem check {p : Prop} [Decidable p] {message : String} {f : PUnit → Except StoreError α}
    (hf : NeverInvalid (f ⟨⟩)) :
    NeverInvalid (if p then throw (.corrupt message) >>= f else f ⟨⟩) := by
  split
  · exact corrupt message
  · exact hf

end NeverInvalid

/-- A reader that refuses no input. -/
def ReadsAny {α : Type} (r : Reader α) : Prop := ∀ bs, NeverInvalid (r bs)

namespace ReadsAny

variable {α β : Type}

theorem readWith (take : Bytes → Option (α × Bytes)) : ReadsAny (readWith take) := by
  intro bs
  rw [Cxdb.readWith]
  split
  · exact .ok _
  · simp [NeverInvalid]

theorem pure (a : α) : ReadsAny (Pure.pure a) := fun _ => .ok _

theorem bind {r : Reader α} {f : α → Reader β} (hr : ReadsAny r) (hf : ∀ a, ReadsAny (f a)) :
    ReadsAny (r >>= f) :=
  fun bs => (hr bs).bind fun read => hf read.1 read.2

theorem check {p : Prop} [Decidable p] {message : String} {f : PUnit → Reader α}
    (hf : ReadsAny (f ⟨⟩)) : ReadsAny (if p then throw (.corrupt message) >>= f else f ⟨⟩) := by
  intro bs
  split
  · exact .corrupt message
  · exact hf bs

end ReadsAny

theorem readBlobHeader_readsAny : ReadsAny readBlobHeader :=
  .bind (.readWith _) fun _ => .check <|
    .bind (.readWith _) fun _ => .check <|
      .bind (.readWith _) fun _ => .bind (.readWith _) fun _ => .bind (.readWith _) fun _ =>
        .bind (.readWith _) fun _ => .pure _

theorem readAtExact_neverInvalid (pack : Bytes) (offset len : ℕ) :
    NeverInvalid (readAtExact pack offset len) := by
  rw [readAtExact]
  split
  · simp [NeverInvalid]
  · split
    · exact .ok _
    · exact .corrupt _

theorem BlobCodec.ofU16_neverInvalid (codecRaw : UInt16) :
    NeverInvalid (BlobCodec.ofU16 codecRaw) := by
  rw [BlobCodec.ofU16]
  split
  · exact .ok _
  · split
    · exact .ok _
    · exact .corrupt _

/-- Reading a blob never fails as an invalid input. -/
theorem BlobStore.get_neverInvalid (z : Zstd) (s : BlobStore) (pack : Bytes) (hash : Hash) :
    NeverInvalid (s.get z pack hash) := by
  rw [BlobStore.get]
  split
  · simp [NeverInvalid]
  · refine .bind (readAtExact_neverInvalid _ _ _) fun header =>
      .bind (readBlobHeader_readsAny _) fun h => .check <| .check <| .check <|
        .bind (readAtExact_neverInvalid _ _ _) fun body =>
          .bind (ReadsAny.readWith _ _) fun crc => .check <|
            .bind (BlobCodec.ofU16_neverInvalid _) fun codec => ?_
    split
    · exact .bind (.ok _) fun raw => .check (.ok raw)
    · split
      · exact .bind (.ok _) fun raw => .check (.ok raw)
      · exact .corrupt _

namespace FsStore

/-! ### Entries -/

/-- `EntryKind`. -/
inductive EntryKind where
  | file
  | directory
  | symlink
  deriving DecidableEq, Repr

/-- `EntryKind::from`: an unknown kind is a file. -/
def EntryKind.ofU8 (v : UInt8) : EntryKind :=
  if v = 0 then .file
  else if v = 1 then .directory
  else if v = 2 then .symlink
  else .file

/-- An entry of a directory. -/
structure TreeEntry where
  name : String
  kind : UInt8
  mode : UInt32
  size : UInt64
  hash : Bytes
  deriving DecidableEq, Repr

/-- The hash of an entry, where it has 32 bytes. -/
def TreeEntry.hashArray (entry : TreeEntry) : Except StoreError Hash :=
  if h : entry.hash.length = 32 then .ok ⟨entry.hash, h⟩
  else .error (.corrupt ("invalid hash length: " ++ toString entry.hash.length))

def TreeEntry.kindEnum (entry : TreeEntry) : EntryKind := .ofU8 entry.kind

/-! ### Reading a tree -/

/-- The number of a field, from an integer or a text that spells one; zero is no field. -/
def fieldKey : MsgpackValue → Option UInt64
  | .integer n => some ((integerAsU64 n).getD 0)
  | .string s => some ((s.bind parseTag).getD 0)
  | _ => none

def TreeEntry.empty : TreeEntry where
  name := ""
  kind := 0
  mode := 0
  size := 0
  hash := []

/-- One pass of the loop of `parse_tree_entry`: a value of another type is passed over. -/
def TreeEntry.readField (entry : TreeEntry) (field : MsgpackValue × MsgpackValue) : TreeEntry :=
  match fieldKey field.1 with
  | none => entry
  | some key =>
      if key = 1 then
        match field.2 with
        | .string s => { entry with name := s.getD "" }
        | _ => entry
      else if key = 2 then
        match field.2 with
        | .integer n => { entry with kind := ((integerAsU64 n).getD 0).toUInt8 }
        | _ => entry
      else if key = 3 then
        match field.2 with
        | .integer n => { entry with mode := ((integerAsU64 n).getD 0).toUInt32 }
        | _ => entry
      else if key = 4 then
        match field.2 with
        | .integer n => { entry with size := (integerAsU64 n).getD 0 }
        | _ => entry
      else if key = 5 then
        match field.2 with
        | .binary bytes => { entry with hash := bytes }
        | _ => entry
      else entry

/-- `parse_tree_entry`. -/
def parseTreeEntry : MsgpackValue → Except StoreError TreeEntry
  | .map fields => .ok (fields.foldl TreeEntry.readField .empty)
  | _ => .error (.corrupt "tree entry is not a map")

/-- The blobs as a walk over trees sees them: the blob store with its pack, and
`rmpv::decode::read_value`. -/
structure TreeSource where
  zstd : Zstd
  readValue : Bytes → Except String MsgpackValue
  store : BlobStore
  pack : Bytes

/-- `get` of the blob store. -/
def TreeSource.get (b : TreeSource) (hash : Hash) : Except StoreError Bytes :=
  b.store.get b.zstd b.pack hash

/-- `parse_tree_entries`. -/
def TreeSource.parseTreeEntries (b : TreeSource) (bytes : Bytes) :
    Except StoreError (List TreeEntry) :=
  match b.readValue bytes with
  | .error e => .error (.corrupt ("invalid tree msgpack: " ++ e))
  | .ok (.array items) => items.mapM parseTreeEntry
  | .ok _ => .error (.corrupt "tree is not an array")

/-- `load_tree_entries`. -/
def TreeSource.loadTreeEntries (b : TreeSource) (treeHash : Hash) :
    Except StoreError (List TreeEntry) := do
  let bytes ← b.get treeHash
  b.parseTreeEntries bytes

/-! ### Paths -/

/-- `path.trim_matches('/')`. -/
def trimSlashes (path : List Char) : List Char :=
  (path.dropWhile (· = '/')).rdropWhile (· = '/')

/-- The parts between slashes that are neither empty nor a dot. -/
def partsBetween (path : List Char) : List String :=
  ((path.splitOn '/').map String.ofList).filter fun s => s ≠ "" ∧ s ≠ "."

/-- The parts of a path. -/
def pathParts (path : String) : List String := partsBetween (trimSlashes path.toList)

/-- The loop of `resolve_path`. Its last pass returns, so that only a path without parts comes to
the end of the parts: the function returns the root for it before the loop. -/
def TreeSource.resolveLoop (b : TreeSource) :
    Hash → List String → Except StoreError (Hash × Bool)
  | currentHash, [] => .ok (currentHash, true)
  | currentHash, part :: rest => do
    let entries ← b.loadTreeEntries currentHash
    match entries.find? fun e => e.name = part with
    | none => throw (.notFound ("path component not found: " ++ part))
    | some entry =>
      let entryHash ← entry.hashArray
      if rest = [] then return (entryHash, entry.kindEnum = .directory)
      if entry.kindEnum ≠ .directory then throw (.invalidInput ("not a directory: " ++ part))
      b.resolveLoop entryHash rest

/-- `resolve_path`: the hash that a path leads to, and whether it is one of a directory. -/
def TreeSource.resolvePath (b : TreeSource) (rootHash : Hash) (path : String) :
    Except StoreError (Hash × Bool) :=
  if path = "" ∨ path = "/" then .ok (rootHash, true)
  else b.resolveLoop rootHash (pathParts path)

def emptyPathError : StoreError := .invalidInput "empty path"

/-- The error for a path that leads to a directory quotes the path as it was given. -/
def isDirectoryError (path : String) : StoreError :=
  .invalidInput ("path is a directory: " ++ path)

/-- The loop of `get_file_at_path`, and its error for a path without parts. -/
def TreeSource.fileLoop (b : TreeSource) (path : String) :
    Hash → List String → Except StoreError (Bytes × TreeEntry)
  | _, [] => .error emptyPathError
  | currentHash, part :: rest => do
    let entries ← b.loadTreeEntries currentHash
    match entries.find? fun e => e.name = part with
    | none => throw (.notFound ("path component not found: " ++ part))
    | some entry =>
      let entryHash ← entry.hashArray
      if rest = [] then
        match entry.kindEnum with
        | .file =>
          let content ← b.get entryHash
          return (content, entry)
        | .symlink =>
          let content ← b.get entryHash
          return (content, entry)
        | .directory => throw (isDirectoryError path)
      else
        if entry.kindEnum ≠ .directory then throw (.invalidInput ("not a directory: " ++ part))
        b.fileLoop path entryHash rest

/-- `get_file_at_path`: the content that a path leads to, with its entry; of a symbolic link the
content is the target. -/
def TreeSource.getFileAtPath (b : TreeSource) (rootHash : Hash) (path : String) :
    Except StoreError (Bytes × TreeEntry) :=
  b.fileLoop path rootHash (pathParts path)

/-! ### Parts -/

@[simp] theorem partsBetween_nil : partsBetween [] = [] := by
  simp [partsBetween]

@[simp] theorem partsBetween_slash_cons (path : List Char) :
    partsBetween ('/' :: path) = partsBetween path := by
  rw [partsBetween, partsBetween, show '/' :: path = [] ++ '/' :: path from rfl,
    List.splitOn_append_cons_self]
  simp

@[simp] theorem partsBetween_concat_slash (path : List Char) :
    partsBetween (path ++ ['/']) = partsBetween path := by
  rw [partsBetween, partsBetween, List.splitOn_append_cons_self]
  simp

theorem partsBetween_dropWhile (path : List Char) :
    partsBetween (path.dropWhile (· = '/')) = partsBetween path := by
  induction path with
  | nil => rfl
  | cons c path ih =>
    by_cases hc : c = '/'
    · subst hc
      simpa using ih
    · rw [List.dropWhile_cons_of_neg (by simpa using hc)]

theorem partsBetween_rdropWhile (path : List Char) :
    partsBetween (path.rdropWhile (· = '/')) = partsBetween path := by
  induction path using List.reverseRecOn with
  | nil => rfl
  | append_singleton path c ih =>
    by_cases hc : c = '/'
    · subst hc
      rw [List.rdropWhile_concat_pos _ _ _ (by simp), ih, partsBetween_concat_slash]
    · rw [List.rdropWhile_concat_neg _ _ _ (by simpa using hc)]

/-- The slashes that are trimmed off a path make no parts. -/
theorem pathParts_eq (path : String) : pathParts path = partsBetween path.toList := by
  rw [pathParts, trimSlashes, partsBetween_rdropWhile, partsBetween_dropWhile]

end FsStore

end Cxdb
