import Mathlib.Data.List.Sort
import Mathlib.Order.Defs.Unbundled
import Cxdb.DataDir
import Cxdb.PathMatch
import Cxdb.Utf8Chunks

/-!
# Snapshots of Directories

The packages `fstree` of the Go and the Rust client: a directory is captured as tree objects,
which name the files, directories and symbolic links in it by the hashes of what they contain.
The two clients walk in the same way, and a `Walker` has what they do differently. The file
system is what its calls answer. BLAKE3 and the `glob` crate are parameters.

The maps of a snapshot have the tree objects themselves where the source has the bytes that
they are serialized to.

## Main results

* `Builder.Closed`: what a tree object names is in the maps; `capture_closed`: so it is in a
  snapshot.
-/

open ByteFormat GoStrings

namespace Cxdb

/-! ### File systems -/

/-- A path below the directory that is captured, as its components. -/
abbrev Path := List Bytes

/-- A path with separators, as the patterns see it. -/
def Path.text (p : Path) : Bytes := List.intercalate [PathMatch.separator] p

/-- What a file is; the walkers take everything else for a regular file. -/
inductive FileKind where
  | regular
  | directory
  | symlink
  deriving DecidableEq

/-- What `stat` and `lstat` tell of a file; the mode is `st_mode`. -/
structure FileInfo where
  kind : FileKind
  mode : UInt32
  size : UInt64
  deriving DecidableEq

/-- An entry of a directory, as reading the directory shows it. -/
structure DirEntry where
  name : Bytes
  isDir : Bool
  deriving DecidableEq

/-- A file system, by what its calls answer. -/
structure FileSystem where
  canonical : Path → Option Path
  readDir : Path → Option (List DirEntry)
  stat : Path → Option FileInfo
  lstat : Path → Option FileInfo
  readLink : Path → Option Bytes
  readFile : Path → Option Bytes
  /-- `stat` follows symbolic links. -/
  stat_follows : ∀ {p info}, stat p = some info → info.kind ≠ .symlink

/-! ### Tree objects -/

/-- `EntryKind`. -/
inductive EntryKind where
  | file
  | directory
  | symlink
  deriving DecidableEq

def EntryKind.toU8 : EntryKind → UInt8
  | .file => 0
  | .directory => 1
  | .symlink => 2

structure TreeEntry where
  name : Bytes
  kind : EntryKind
  mode : UInt32
  size : UInt64
  hash : Hash
  deriving DecidableEq

/-- Entries in the order of their names. -/
def sortByName (entries : List TreeEntry) : List TreeEntry :=
  entries.insertionSort fun a b => a.name ≤ b.name

/-- The `n` low bytes of a number, the highest first. -/
def beBytes (n x : ℕ) : Bytes := (leBytes n x).reverse

/-- The head of a string in msgpack. -/
def msgpackStrLen (n : ℕ) : Bytes :=
  if n < 32 then [UInt8.ofNat (0xa0 + n)]
  else if n < 2 ^ 8 then 0xd9 :: beBytes 1 n
  else if n < 2 ^ 16 then 0xda :: beBytes 2 n
  else 0xdb :: beBytes 4 n

/-- The head of an array in msgpack. -/
def msgpackArrayLen (n : ℕ) : Bytes :=
  if n < 16 then [UInt8.ofNat (0x90 + n)]
  else if n < 2 ^ 16 then 0xdc :: beBytes 2 n
  else 0xdd :: beBytes 4 n

/-- A `TreeEntry` in msgpack: a map whose keys are the tags of the fields as strings; the
integers have the widths of their types. -/
def TreeEntry.bytes (e : TreeEntry) : Bytes :=
  [0x85, 0xa1, 0x31] ++ msgpackStrLen e.name.length ++ e.name ++
  [0xa1, 0x32, 0xcc, e.kind.toU8] ++
  [0xa1, 0x33, 0xce] ++ beBytes 4 e.mode.toNat ++
  [0xa1, 0x34, 0xcf] ++ beBytes 8 e.size.toNat ++
  [0xa1, 0x35, 0xc4, 0x20] ++ e.hash.toList

/-- `encode_msgpack` of a `Vec<TreeEntry>`. -/
def Rust.serializeTree (entries : List TreeEntry) : Bytes :=
  msgpackArrayLen entries.length ++ entries.flatMap TreeEntry.bytes

/-- `serializeTree`. The slice of a directory without entries is `nil`. -/
def Go.serializeTree (entries : List TreeEntry) : Bytes :=
  if entries = [] then [0xc0] else Rust.serializeTree entries

/-! ### Options -/

/-- The options of a capture; patterns and paths are in UTF-8. A negative limit for the number
of files, which Go allows, is like 0. -/
structure SnapshotOptions where
  excludePatterns : List Bytes
  excludeFn : Option (Bytes → Bool → Bool)
  followSymlinks : Bool
  maxFileSize : Int64
  maxFiles : ℕ

/-- `defaultOptions` and `Options::default`. -/
def SnapshotOptions.default : SnapshotOptions where
  excludePatterns := []
  excludeFn := none
  followSymlinks := false
  maxFileSize := 100 * 1024 * 1024
  maxFiles := 100000

/-- `filepath.Base` of a path that does not end in a separator. -/
def baseName (path : Bytes) : Bytes :=
  (path.reverse.takeWhile (· ≠ PathMatch.separator)).reverse

/-- `shouldExclude` in Go. -/
def Go.shouldExclude (o : SnapshotOptions) (relPath : Bytes) (isDir : Bool) : Bool :=
  (o.excludeFn.any fun f => f relPath isDir) ||
    o.excludePatterns.any fun pattern =>
      PathMatch.pathMatch pattern relPath || PathMatch.pathMatch pattern (baseName relPath) ||
        (isDir && decide (3 < pattern.length) &&
          pattern.drop (pattern.length - 3) == utf8Bytes "/**" &&
          PathMatch.pathMatch (pattern.take (pattern.length - 3)) relPath)

/-- `normalize_path`. -/
def normalizePath (path : Bytes) : Bytes := path.map fun b => if b = 92 then 47 else b

/-- `Path::file_name`, or nothing. -/
def fileName (path : Bytes) : Bytes :=
  match ((path.splitOn PathMatch.separator).filter fun c => c ≠ [] ∧ c ≠ [46]).getLast? with
  | some c => if c = [46, 46] then [] else c
  | none => []

section Glob

variable (glob : Bytes → Bytes → Bool)

/-- `is_double_star_dir`. -/
def isDoubleStarDir (pattern relPath : Bytes) (isDir : Bool) : Bool :=
  isDir && decide (utf8Bytes "/**" <:+ pattern) &&
    (relPath == pattern.take (pattern.length - 3) ||
      decide (pattern.take (pattern.length - 3) ++ [PathMatch.separator] <+: relPath) ||
      glob (pattern.take (pattern.length - 3)) relPath)

/-- `should_exclude` in Rust. -/
def Rust.shouldExclude (o : SnapshotOptions) (relPath : Bytes) (isDir : Bool) : Bool :=
  (o.excludeFn.any fun f => f relPath isDir) ||
    let relPath := normalizePath relPath
    o.excludePatterns.any fun pattern =>
      isDoubleStarDir glob pattern relPath isDir || glob pattern relPath ||
        glob pattern (fileName relPath)

end Glob

/-! ### Builders -/

structure FileRef where
  path : Path
  size : UInt64
  hash : Hash
  deriving DecidableEq

/-- `builder` and `Builder`. -/
structure Builder where
  trees : HashMap Hash (List TreeEntry)
  files : HashMap Hash FileRef
  symlinks : HashMap Hash Bytes
  visited : Finset Path
  fileCount : ℕ
  dirCount : ℕ
  symlinkCount : ℕ
  totalBytes : UInt64

/-- `Builder::new`. -/
def Builder.new : Builder where
  trees := ∅
  files := ∅
  symlinks := ∅
  visited := ∅
  fileCount := 0
  dirCount := 0
  symlinkCount := 0
  totalBytes := 0

/-- `FstreeErrorKind`. -/
inductive FstreeError where
  | tooManyFiles
  | fileTooLarge
  | cyclicLink
  | io
  | client
  | other
  deriving DecidableEq

/-- The errors that end a capture; a file or directory with another one is left out. -/
def FstreeError.ends (e : FstreeError) : Bool := e = .tooManyFiles ∨ e = .cyclicLink

/-- A part of a capture. It has no outcome where the fuel runs out. -/
abbrev Capturing (α : Type) := Builder → Option (Except FstreeError α × Builder)

/-- What the two clients do differently. -/
structure Walker where
  /-- The order in which a directory is read. -/
  listing : List DirEntry → List DirEntry
  /-- The bytes of a name, or of the target of a link, as text. -/
  text : Bytes → Bytes
  /-- The permissions that are kept of a mode. -/
  permissions : UInt32 → UInt32
  excludes : SnapshotOptions → Bytes → Bool → Bool
  serializeTree : List TreeEntry → Bytes
  /-- A directory is no longer marked as visited when there was an error in it. -/
  unmarksFailed : Bool

/-- The Go client: `os.ReadDir` sorts, `Perm` keeps nine bits, the mark is taken off by a
`defer`. -/
def Go.walker : Walker where
  listing des := des.insertionSort fun a b => a.name ≤ b.name
  text := id
  permissions mode := mode &&& 0o777
  excludes := Go.shouldExclude
  serializeTree := Go.serializeTree
  unmarksFailed := true

/-- `to_string_lossy`. -/
def toStringLossy (bs : Bytes) : Bytes := Utf8Chunks.encode (Utf8Chunks.lossy bs)

/-- The Rust client. -/
def Rust.walker (glob : Bytes → Bytes → Bool) : Walker where
  listing := id
  text := toStringLossy
  permissions mode := mode &&& 0o7777
  excludes := Rust.shouldExclude glob
  serializeTree := Rust.serializeTree
  unmarksFailed := false

/-! ### Capturing -/

section Capture

variable (blake3 : Bytes → Hash) (w : Walker) (o : SnapshotOptions) (fs : FileSystem)

/-- The default branch of `buildEntry`. -/
def buildFile (path : Path) (name : Bytes) (info : FileInfo) : Capturing TreeEntry := fun b =>
  if o.maxFiles ≤ b.fileCount then some (.error .tooManyFiles, b)
  else if o.maxFileSize < info.size.toInt64 then some (.error .fileTooLarge, b)
  else
    match fs.readFile path with
    | none => some (.error .io, b)
    | some content =>
        let hash := blake3 content
        some (.ok { name, kind := .file, mode := w.permissions info.mode, size := info.size, hash },
          { b with
            files := b.files.insert hash { path, size := info.size, hash }
            fileCount := b.fileCount + 1
            totalBytes := b.totalBytes + info.size })

/-- The branch of `buildEntry` for symbolic links. -/
def buildSymlink (path : Path) (name : Bytes) (info : FileInfo) : Capturing TreeEntry := fun b =>
  match fs.readLink path with
  | none => some (.error .io, b)
  | some target =>
      let target := w.text target
      let hash := blake3 target
      some (.ok { name, kind := .symlink, mode := w.permissions info.mode
                  size := UInt64.ofNat target.length, hash },
        { b with
          symlinks := b.symlinks.insert hash target
          symlinkCount := b.symlinkCount + 1 })

/-- `buildEntry`, where `build` is the recursive call of `buildTree`. -/
def buildEntry (build : Path → Capturing Hash) (path : Path) (name : Bytes) (info : FileInfo) :
    Capturing TreeEntry := fun b =>
  match info.kind with
  | .symlink => buildSymlink blake3 w fs path name info b
  | .directory =>
      (build path b).map fun (r, b) =>
        (r.map fun hash =>
          { name, kind := .directory, mode := w.permissions info.mode, size := 0, hash }, b)
  | .regular => buildFile blake3 w o fs path name info b

/-- The loop of `buildTree` over a directory, behind `entries`. -/
def buildEntries (build : Path → Capturing Hash) (path : Path) :
    List DirEntry → List TreeEntry → Capturing (List TreeEntry)
  | [], entries, b => some (.ok entries, b)
  | de :: des, entries, b =>
      let name := w.text de.name
      let child := path ++ [name]
      if w.excludes o child.text de.isDir then buildEntries build path des entries b
      else
        match if o.followSymlinks then fs.stat child else fs.lstat child with
        | none => buildEntries build path des entries b
        | some info =>
          match buildEntry blake3 w o fs build child name info b with
          | none => none
          | some (.ok entry, b) => buildEntries build path des (entries ++ [entry]) b
          | some (.error e, b) =>
              if e.ends then some (.error e, b) else buildEntries build path des entries b

/-- `buildTree` behind the check for cycles. -/
def buildDir (build : Path → Capturing Hash) (path : Path) : Capturing Hash := fun b =>
  match fs.readDir path with
  | none => some (.error .io, b)
  | some des =>
    match buildEntries blake3 w o fs build path (w.listing des) [] b with
    | none => none
    | some (.error e, b) => some (.error e, b)
    | some (.ok entries, b) =>
        let entries := sortByName entries
        let hash := blake3 (w.serializeTree entries)
        some (.ok hash, { b with
          trees := b.trees.insert hash entries
          dirCount := b.dirCount + 1 })

/-- Take the mark off a directory. -/
def Walker.leave (real : Path) (r : Except FstreeError Hash) (b : Builder) : Builder :=
  { b with visited :=
      if w.unmarksFailed ∨ r.toOption.isSome then b.visited.erase real else b.visited }

/-- `buildTree`. The fuel bounds how deep it goes. -/
def buildTree : ℕ → Path → Capturing Hash
  | 0, _, _ => none
  | fuel + 1, path, b =>
    match fs.canonical path with
    | none => buildDir blake3 w o fs (buildTree fuel) path b
    | some real =>
      if real ∈ b.visited then some (.error .cyclicLink, b)
      else
        (buildDir blake3 w o fs (buildTree fuel) path
          { b with visited := insert real b.visited }).map fun (r, b) => (r, w.leave real r b)

/-- `Snapshot`, without the times. -/
structure Snapshot where
  rootHash : Hash
  trees : HashMap Hash (List TreeEntry)
  files : HashMap Hash FileRef
  symlinks : HashMap Hash Bytes
  fileCount : ℕ
  dirCount : ℕ
  symlinkCount : ℕ
  totalBytes : UInt64

/-- The snapshot that a builder has made. -/
def Builder.snapshot (b : Builder) (rootHash : Hash) : Snapshot where
  rootHash
  trees := b.trees
  files := b.files
  symlinks := b.symlinks
  fileCount := b.fileCount
  dirCount := b.dirCount
  symlinkCount := b.symlinkCount
  totalBytes := b.totalBytes

/-- `Capture` and `capture`. -/
def capture (fuel : ℕ) : Option (Except FstreeError Snapshot) :=
  match fs.stat [] with
  | none => some (.error .io)
  | some info =>
    if info.kind ≠ .directory then some (.error .other)
    else
      (buildTree blake3 w o fs fuel [] Builder.new).map fun (r, b) => r.map b.snapshot

end Capture

/-! ### What a snapshot has -/

/-- The map for the kind of an entry has what the entry names. -/
def Builder.Has (b : Builder) (e : TreeEntry) : Prop :=
  match e.kind with
  | .file => e.hash ∈ b.files
  | .directory => e.hash ∈ b.trees
  | .symlink => e.hash ∈ b.symlinks

def Builder.HasTree (b : Builder) (h : Hash) : Prop := h ∈ b.trees

/-- What a builder has, a later one has. -/
structure Builder.Within (b b' : Builder) : Prop where
  trees : ∀ h ∈ b.trees, h ∈ b'.trees
  files : ∀ h ∈ b.files, h ∈ b'.files
  symlinks : ∀ h ∈ b.symlinks, h ∈ b'.symlinks

theorem Builder.Within.refl (b : Builder) : b.Within b :=
  ⟨fun _ h => h, fun _ h => h, fun _ h => h⟩

theorem Builder.Within.trans {b b' b'' : Builder} (h : b.Within b') (h' : b'.Within b'') :
    b.Within b'' :=
  ⟨fun k hk => h'.trees k (h.trees k hk), fun k hk => h'.files k (h.files k hk),
    fun k hk => h'.symlinks k (h.symlinks k hk)⟩

theorem Builder.Within.has {b b' : Builder} (h : b.Within b') {e : TreeEntry} (he : b.Has e) :
    b'.Has e := by
  obtain ⟨name, kind, mode, size, hash⟩ := e
  cases kind with
  | file => exact h.files hash he
  | directory => exact h.trees hash he
  | symlink => exact h.symlinks hash he

variable {blake3 : Bytes → Hash} {w : Walker} {o : SnapshotOptions} {fs : FileSystem}

/-- The tree objects name what the maps have; trees and links are under their hashes. -/
structure Builder.Closed (blake3 : Bytes → Hash) (w : Walker) (b : Builder) : Prop where
  entries : ∀ {h es}, b.trees.lookup h = some es → ∀ e ∈ es, b.Has e
  trees : ∀ {h es}, b.trees.lookup h = some es → blake3 (w.serializeTree es) = h
  symlinks : ∀ {h target}, b.symlinks.lookup h = some target → blake3 target = h

/-- A part of a capture keeps builders closed and loses nothing, and what it returns is as
`P` says. -/
def Keeps (blake3 : Bytes → Hash) (w : Walker) {α : Type} (m : Capturing α)
    (P : Builder → α → Prop) : Prop :=
  ∀ {b r b'}, m b = some (r, b') → b.Closed blake3 w →
    b'.Closed blake3 w ∧ b.Within b' ∧ ∀ a, r = .ok a → P b' a

/-- An error leaves the builder as it is. -/
theorem keeps_error {α : Type} {b b' : Builder} {r : Except FstreeError α} {e : FstreeError}
    {P : Builder → α → Prop} (h : some (Except.error e, b) = some (r, b'))
    (hb : b.Closed blake3 w) :
    b'.Closed blake3 w ∧ b.Within b' ∧ ∀ a, r = .ok a → P b' a := by
  obtain ⟨rfl, rfl⟩ := Prod.mk.inj (Option.some.inj h)
  exact ⟨hb, .refl b, fun a ha => nomatch ha⟩

theorem buildFile_keeps (path : Path) (name : Bytes) (info : FileInfo) :
    Keeps blake3 w (buildFile blake3 w o fs path name info) Builder.Has := by
  intro b r b' h hb
  rw [buildFile] at h
  split_ifs at h
  · exact keeps_error h hb
  · exact keeps_error h hb
  · cases hread : fs.readFile path with
    | none =>
        rw [hread] at h
        exact keeps_error h hb
    | some content =>
        rw [hread] at h
        obtain ⟨rfl, rfl⟩ := Prod.mk.inj (Option.some.inj h)
        have hle : b.Within { b with
            files := b.files.insert (blake3 content) ⟨path, info.size, blake3 content⟩
            fileCount := b.fileCount + 1
            totalBytes := b.totalBytes + info.size } :=
          ⟨fun _ h => h, fun _ h => Finmap.mem_insert.mpr (Or.inr h), fun _ h => h⟩
        refine ⟨⟨fun hes e he => hle.has (hb.entries hes e he), hb.trees, hb.symlinks⟩, hle, ?_⟩
        rintro e ⟨⟩
        exact Finmap.mem_insert.mpr (Or.inl rfl)

theorem buildSymlink_keeps (path : Path) (name : Bytes) (info : FileInfo) :
    Keeps blake3 w (buildSymlink blake3 w fs path name info) Builder.Has := by
  intro b r b' h hb
  rw [buildSymlink] at h
  cases hread : fs.readLink path with
  | none =>
      rw [hread] at h
      exact keeps_error h hb
  | some target =>
      rw [hread] at h
      obtain ⟨rfl, rfl⟩ := Prod.mk.inj (Option.some.inj h)
      have hle : b.Within { b with
          symlinks := b.symlinks.insert (blake3 (w.text target)) (w.text target)
          symlinkCount := b.symlinkCount + 1 } :=
        ⟨fun _ h => h, fun _ h => h, fun _ h => Finmap.mem_insert.mpr (Or.inr h)⟩
      refine ⟨⟨fun hes e he => hle.has (hb.entries hes e he), hb.trees, ?_⟩, hle, ?_⟩
      · intro h target' htarget
        dsimp only at htarget
        rw [LastWrite.lookup_insert] at htarget
        split_ifs at htarget with hh
        · rw [hh, ← Option.some.inj htarget]
        · exact hb.symlinks htarget
      · rintro e ⟨⟩
        exact Finmap.mem_insert.mpr (Or.inl rfl)

theorem buildEntry_keeps {build : Path → Capturing Hash}
    (hbuild : ∀ path, Keeps blake3 w (build path) Builder.HasTree) (path : Path)
    (name : Bytes) (info : FileInfo) :
    Keeps blake3 w (buildEntry blake3 w o fs build path name info) Builder.Has := by
  intro b r b' h hb
  rw [buildEntry] at h
  cases hkind : info.kind with
  | symlink =>
      rw [hkind] at h
      exact buildSymlink_keeps path name info h hb
  | regular =>
      rw [hkind] at h
      exact buildFile_keeps path name info h hb
  | directory =>
      rw [hkind] at h
      obtain ⟨⟨x, b₁⟩, hx, heq⟩ := Option.map_eq_some_iff.mp h
      obtain ⟨rfl, rfl⟩ := Prod.mk.inj heq
      obtain ⟨hclosed, hle, hpost⟩ := hbuild path hx hb
      refine ⟨hclosed, hle, fun e he => ?_⟩
      cases x with
      | error e => cases he
      | ok hash =>
          obtain rfl := Except.ok.inj he
          exact hpost hash rfl

/-- The loop keeps what it has collected. -/
theorem buildEntries_keeps {build : Path → Capturing Hash}
    (hbuild : ∀ path, Keeps blake3 w (build path) Builder.HasTree) (path : Path)
    (des : List DirEntry) (entries : List TreeEntry) {b b' : Builder}
    {r : Except FstreeError (List TreeEntry)}
    (h : buildEntries blake3 w o fs build path des entries b = some (r, b'))
    (hb : b.Closed blake3 w) (hentries : ∀ e ∈ entries, b.Has e) :
    b'.Closed blake3 w ∧ b.Within b' ∧ ∀ es, r = .ok es → ∀ e ∈ es, b'.Has e := by
  induction des generalizing entries b with
  | nil =>
      obtain ⟨rfl, rfl⟩ := Prod.mk.inj (Option.some.inj h)
      refine ⟨hb, .refl _, ?_⟩
      rintro es ⟨⟩
      exact hentries
  | cons de des ih =>
      rw [buildEntries] at h
      split_ifs at h
      · exact ih entries h hb hentries
      all_goals
        split at h
        · exact ih entries h hb hentries
        · next info _ =>
          split at h
          · cases h
          · next entry b₁ hentry =>
            obtain ⟨hclosed, hle, hpost⟩ := buildEntry_keeps hbuild _ _ info hentry hb
            have hmore : ∀ e ∈ entries ++ [entry], b₁.Has e := by
              intro e he
              rcases List.mem_append.mp he with he | he
              · exact hle.has (hentries e he)
              · exact List.mem_singleton.mp he ▸ hpost entry rfl
            obtain ⟨hclosed', hle', hpost'⟩ := ih (entries ++ [entry]) h hclosed hmore
            exact ⟨hclosed', hle.trans hle', hpost'⟩
          · next e b₁ hentry =>
            obtain ⟨hclosed, hle, -⟩ := buildEntry_keeps hbuild _ _ info hentry hb
            split_ifs at h
            · obtain ⟨rfl, rfl⟩ := Prod.mk.inj (Option.some.inj h)
              exact ⟨hclosed, hle, fun a ha => nomatch ha⟩
            · obtain ⟨hclosed', hle', hpost'⟩ :=
                ih entries h hclosed fun e he => hle.has (hentries e he)
              exact ⟨hclosed', hle.trans hle', hpost'⟩

theorem mem_sortByName {entries : List TreeEntry} {e : TreeEntry} :
    e ∈ sortByName entries ↔ e ∈ entries :=
  (List.perm_insertionSort _ entries).mem_iff

theorem buildDir_keeps {build : Path → Capturing Hash}
    (hbuild : ∀ path, Keeps blake3 w (build path) Builder.HasTree) (path : Path) :
    Keeps blake3 w (buildDir blake3 w o fs build path) Builder.HasTree := by
  intro b r b' h hb
  rw [buildDir] at h
  split at h
  · exact keeps_error h hb
  · next des _ =>
    split at h
    · cases h
    · next e b₁ hloop =>
      obtain ⟨rfl, rfl⟩ := Prod.mk.inj (Option.some.inj h)
      obtain ⟨hclosed, hle, -⟩ := buildEntries_keeps hbuild path _ [] hloop hb (by simp)
      exact ⟨hclosed, hle, fun a ha => nomatch ha⟩
    · next entries b₁ hloop =>
      obtain ⟨rfl, rfl⟩ := Prod.mk.inj (Option.some.inj h)
      obtain ⟨hclosed, hle, hpost⟩ := buildEntries_keeps hbuild path _ [] hloop hb (by simp)
      have hle' : b₁.Within { b₁ with
          trees := b₁.trees.insert (blake3 (w.serializeTree (sortByName entries)))
            (sortByName entries)
          dirCount := b₁.dirCount + 1 } :=
        ⟨fun _ h => Finmap.mem_insert.mpr (Or.inr h), fun _ h => h, fun _ h => h⟩
      refine ⟨⟨fun {h es} hes e he => hle'.has ?_, fun {h es} hes => ?_, hclosed.symlinks⟩,
        hle.trans hle', ?_⟩
      · dsimp only at hes
        rw [LastWrite.lookup_insert] at hes
        split_ifs at hes with hh
        · obtain rfl := Option.some.inj hes
          exact hpost entries rfl e (mem_sortByName.mp he)
        · exact hclosed.entries hes e he
      · dsimp only at hes
        rw [LastWrite.lookup_insert] at hes
        split_ifs at hes with hh
        · rw [hh, ← Option.some.inj hes]
        · exact hclosed.trees hes
      · rintro hash ⟨⟩
        exact Finmap.mem_insert.mpr (Or.inl rfl)

/-- Marks are of no account for what a builder has. -/
theorem Builder.Closed.setVisited {b : Builder} (h : b.Closed blake3 w) (visited : Finset Path) :
    { b with visited }.Closed blake3 w := ⟨h.entries, h.trees, h.symlinks⟩

/-- **A capture names what it has**, however deep it goes. -/
theorem buildTree_keeps (fuel : ℕ) (path : Path) :
    Keeps blake3 w (buildTree blake3 w o fs fuel path) Builder.HasTree := by
  induction fuel generalizing path with
  | zero =>
      intro b r b' h
      cases h
  | succ fuel ih =>
      intro b r b' h hb
      rw [buildTree] at h
      split at h
      · exact buildDir_keeps ih path h hb
      · next real _ =>
        split_ifs at h
        · exact keeps_error h hb
        · obtain ⟨⟨x, b₁⟩, hx, heq⟩ := Option.map_eq_some_iff.mp h
          obtain ⟨rfl, rfl⟩ := Prod.mk.inj heq
          obtain ⟨hclosed, hle, hpost⟩ := buildDir_keeps ih path hx (hb.setVisited _)
          exact ⟨hclosed.setVisited _, ⟨hle.trees, hle.files, hle.symlinks⟩, hpost⟩

/-- What a snapshot has to be for the hashes in it to lead somewhere. -/
structure Snapshot.Closed (blake3 : Bytes → Hash) (w : Walker) (snap : Snapshot) : Prop where
  root : snap.rootHash ∈ snap.trees
  entries : ∀ {h es}, snap.trees.lookup h = some es → ∀ e ∈ es,
    e.hash ∈ snap.trees ∨ e.hash ∈ snap.files ∨ e.hash ∈ snap.symlinks
  trees : ∀ {h es}, snap.trees.lookup h = some es → blake3 (w.serializeTree es) = h
  symlinks : ∀ {h target}, snap.symlinks.lookup h = some target → blake3 target = h

/-- **A snapshot has the trees, the files and the links that its tree objects name.** -/
theorem capture_closed {fuel : ℕ} {snap : Snapshot}
    (h : capture blake3 w o fs fuel = some (.ok snap)) : snap.Closed blake3 w := by
  rw [capture] at h
  split at h
  · cases h
  · split_ifs at h
    · cases h
    obtain ⟨⟨r, b⟩, hbuild, heq⟩ := Option.map_eq_some_iff.mp h
    cases r with
    | error e => cases heq
    | ok rootHash =>
        obtain rfl := Except.ok.inj heq
        have hnew : Builder.new.Closed blake3 w := by
          constructor <;> simp [Builder.new]
        obtain ⟨hclosed, -, hroot⟩ := buildTree_keeps fuel [] hbuild hnew
        refine ⟨hroot rootHash rfl, fun {h es} hes e he => ?_, hclosed.trees, hclosed.symlinks⟩
        have hhas := hclosed.entries hes e he
        rw [Builder.Has] at hhas
        cases hkind : e.kind with
        | file => exact Or.inr (Or.inl (by rwa [hkind] at hhas))
        | directory => exact Or.inl (by rwa [hkind] at hhas)
        | symlink => exact Or.inr (Or.inr (by rwa [hkind] at hhas))

/-- A digest that tells byte strings with different first bytes apart. -/
def headDigest (bs : Bytes) : Hash := List.Vector.replicate 32 (bs.headD 0)

end Cxdb
