import Mathlib.Data.Finset.Lattice.Lemmas
import Cxdb.Snapshots

/-!
# Snapshots of Trees

What a walker captures of a directory tree, as a function of the tree. The hashes do not depend
on the order in which the directories are read. Whether the walk passes the limit for the number
of files does, where there are files that cannot be captured: it fails at the first file that it
meets when it has captured as many as the limit allows.

## Main results

* `buildTree_comesTo`: what a walk of a tree comes to.
* `capture_outcome`: the same for a capture.
-/

open ByteFormat

namespace Cxdb

/-! ### Trees -/

/-- A file, a directory or a symbolic link with its mode; a file or directory may be one that
the client is not allowed to read. The entries of a directory are in the order in which it is
read. -/
inductive Node where
  | file (mode : UInt32) (readable : Bool) (content : Bytes)
  | directory (mode : UInt32) (readable : Bool) (entries : List (String × Node))
  | symlink (mode : UInt32) (target : Bytes)

namespace Node

def isDir : Node → Bool
  | .directory _ _ _ => true
  | _ => false

def info : Node → FileInfo
  | .file mode _ content => ⟨.regular, mode, UInt64.ofNat content.length⟩
  | .directory mode _ _ => ⟨.directory, mode, 4096⟩
  | .symlink mode target => ⟨.symlink, mode, UInt64.ofNat target.length⟩

/-- What is at a path below a node. -/
def lookup : Path → Node → Option Node
  | [], n => some n
  | c :: p, .directory _ _ entries =>
      match entries.find? fun e => utf8Bytes e.1 = c with
      | some e => lookup p e.2
      | none => none
  | _ :: _, _ => none

/-- The entry of a directory for a node. -/
def dirEntry (e : String × Node) : DirEntry := ⟨utf8Bytes e.1, e.2.isDir⟩

/-- The file system below a node. Links are not followed, so that nothing is answered for what
is behind one. -/
def fileSystem (root : Node) : FileSystem where
  canonical p := (root.lookup p).map fun _ => p
  readDir p :=
    match root.lookup p with
    | some (.directory _ true entries) => some (entries.map dirEntry)
    | _ => none
  stat p :=
    match root.lookup p with
    | some n => if n.info.kind = .symlink then none else some n.info
    | none => none
  lstat p := (root.lookup p).map info
  readLink p :=
    match root.lookup p with
    | some (.symlink _ target) => some target
    | _ => none
  readFile p :=
    match root.lookup p with
    | some (.file _ true content) => some content
    | _ => none
  stat_follows := by
    intro p i h
    split at h
    · split_ifs at h with hkind
      obtain rfl := Option.some.inj h
      exact hkind
    · cases h

mutual

/-- How deep a node goes. -/
def depth : Node → ℕ
  | .directory _ _ entries => depthAll entries + 1
  | _ => 0

/-- How deep the deepest of some entries goes. -/
def depthAll : List (String × Node) → ℕ
  | [] => 0
  | (_, n) :: rest => max n.depth (depthAll rest)

end

mutual

/-- The names in each directory are distinct. -/
def Distinct : Node → Prop
  | .directory _ _ entries => (entries.map Prod.fst).Nodup ∧ DistinctAll entries
  | _ => True

def DistinctAll : List (String × Node) → Prop
  | [] => True
  | (_, n) :: rest => n.Distinct ∧ DistinctAll rest

end

theorem depth_le_of_mem {entries : List (String × Node)} {e : String × Node} (h : e ∈ entries) :
    e.2.depth ≤ depthAll entries := by
  induction entries with
  | nil => cases h
  | cons d rest ih =>
      rw [depthAll]
      rcases List.mem_cons.mp h with rfl | h
      · exact le_max_left _ _
      · exact (ih h).trans (le_max_right _ _)

theorem distinct_of_mem {entries : List (String × Node)} (hd : DistinctAll entries)
    {e : String × Node} (h : e ∈ entries) : e.2.Distinct := by
  induction entries with
  | nil => cases h
  | cons d rest ih =>
      rw [DistinctAll] at hd
      rcases List.mem_cons.mp h with rfl | h
      · exact hd.1
      · exact ih hd.2 h

theorem lookup_append (n : Node) (p q : Path) :
    n.lookup (p ++ q) = (n.lookup p).bind fun m => m.lookup q := by
  induction p generalizing n with
  | nil => rw [List.nil_append, lookup, Option.bind_some]
  | cons c p ih =>
      cases n with
      | file mode readable content => simp [lookup]
      | symlink mode target => simp [lookup]
      | directory mode readable entries =>
          rw [List.cons_append, lookup, lookup]
          split
          · exact ih _
          · rfl

/-- An entry is found under its name. -/
theorem lookup_entry {root : Node} {p : Path} {mode : UInt32} {readable : Bool}
    {entries : List (String × Node)}
    (hroot : root.lookup p = some (.directory mode readable entries))
    (hnd : (entries.map Prod.fst).Nodup) {e : String × Node} (he : e ∈ entries) :
    root.lookup (p ++ [utf8Bytes e.1]) = some e.2 := by
  have hfind : entries.find? (fun d => utf8Bytes d.1 = utf8Bytes e.1) = some e := by
    obtain ⟨pre, post, rfl⟩ := List.append_of_mem he
    rw [List.find?_append, List.find?_eq_none.mpr, Option.none_or, List.find?_cons_of_pos]
    · simp
    · intro d hd heq
      have hname : d.1 = e.1 := utf8Bytes_injective (of_decide_eq_true heq)
      rw [List.map_append, List.nodup_append] at hnd
      exact hnd.2.2 d.1 (List.mem_map_of_mem hd) e.1 (by simp) hname
  rw [lookup_append, hroot, Option.bind_some, lookup, hfind]
  rfl

/-! ### What a walker takes of a tree -/

/-- What is found in a tree: the hashes of tree objects, files and links. -/
structure Found where
  trees : Finset Hash
  files : Finset Hash
  symlinks : Finset Hash
  deriving DecidableEq

attribute [ext] Found

def Found.none : Found := ⟨∅, ∅, ∅⟩

def Found.add (f g : Found) : Found :=
  ⟨f.trees ∪ g.trees, f.files ∪ g.files, f.symlinks ∪ g.symlinks⟩

section Walk

variable (blake3 : Bytes → Hash) (w : Walker) (o : SnapshotOptions)

/-- A node can be captured. -/
def captured : Node → Bool
  | .file _ readable content =>
      readable && !decide (o.maxFileSize < (UInt64.ofNat content.length).toInt64)
  | .directory _ readable _ => readable
  | .symlink _ _ => true

/-- The hash of a directory with these entries. -/
def treeHash (entries : List TreeEntry) : Hash := blake3 (w.serializeTree (sortByName entries))

mutual

/-- The entry for a node that is captured. -/
def entry (p : Path) (name : Bytes) : Node → TreeEntry
  | .file mode _ content =>
      { name, kind := .file, mode := w.permissions mode, size := UInt64.ofNat content.length
        hash := blake3 content }
  | .directory mode _ entries =>
      { name, kind := .directory, mode := w.permissions mode, size := 0
        hash := treeHash blake3 w (treeEntries p entries) }
  | .symlink mode target =>
      { name, kind := .symlink, mode := w.permissions mode
        size := UInt64.ofNat (w.text target).length, hash := blake3 (w.text target) }

/-- The entries for the nodes of a directory that are captured. -/
def treeEntries (p : Path) : List (String × Node) → List TreeEntry
  | [] => []
  | (name, n) :: rest =>
      let child := p ++ [utf8Bytes name]
      if w.excludes o child.text n.isDir ∨ n.captured o = false then treeEntries p rest
      else n.entry child (utf8Bytes name) :: treeEntries p rest

end

mutual

/-- What is found in a node that is not excluded. -/
def found (p : Path) : Node → Found
  | .file mode readable content =>
      if (Node.file mode readable content).captured o then
        { Found.none with files := {blake3 content} }
      else Found.none
  | .directory _ readable entries =>
      if readable then
        (foundAll p entries).add
          { Found.none with trees := {treeHash blake3 w (treeEntries blake3 w o p entries)} }
      else Found.none
  | .symlink _ target => { Found.none with symlinks := {blake3 (w.text target)} }

/-- What is found in the nodes of a directory. -/
def foundAll (p : Path) : List (String × Node) → Found
  | [] => Found.none
  | (name, n) :: rest =>
      let child := p ++ [utf8Bytes name]
      if w.excludes o child.text n.isDir then foundAll p rest
      else (n.found child).add (foundAll p rest)

end

/-- What is under each entry of a directory, in the order in which it is read. -/
def inOrder (listing : List DirEntry → List DirEntry) (l : List (DirEntry × List Bool)) :
    List Bool :=
  (listing (l.map Prod.fst)).flatMap fun de => (l.lookup de).getD []

mutual

/-- The files of a node in the order of the walk, and whether each can be captured. -/
def attempts (p : Path) : Node → List Bool
  | .file mode readable content => [(Node.file mode readable content).captured o]
  | .directory _ readable entries =>
      if readable then inOrder w.listing (attemptsAll p entries) else []
  | .symlink _ _ => []

/-- The same under each entry of a directory. -/
def attemptsAll (p : Path) : List (String × Node) → List (DirEntry × List Bool)
  | [] => []
  | (name, n) :: rest =>
      let child := p ++ [utf8Bytes name]
      (dirEntry (name, n), if w.excludes o child.text n.isDir then [] else n.attempts child) ::
        attemptsAll p rest

end

/-- The files under an entry of a directory. -/
def attemptsAt (p : Path) (e : String × Node) : List Bool :=
  if w.excludes o (Path.text (p ++ [utf8Bytes e.1])) e.2.isDir then []
  else e.2.attempts w o (p ++ [utf8Bytes e.1])

/-- A walk that has captured `n` files passes the limit: it meets a file when it has captured as
many as the limit allows. -/
def passes (limit : ℕ) : ℕ → List Bool → Bool
  | _, [] => false
  | n, a :: as => decide (limit ≤ n) || passes limit (if a then n + 1 else n) as

end Walk

theorem passes_append (limit n : ℕ) (as bs : List Bool) :
    passes limit n (as ++ bs) = (passes limit n as || passes limit (n + as.count true) bs) := by
  induction as generalizing n with
  | nil => simp [passes]
  | cons a as ih =>
      rw [List.cons_append, passes, passes, ih, Bool.or_assoc]
      cases a <;> simp [Nat.add_assoc, Nat.add_comm 1]

/-! ### What a walk comes to -/

variable {blake3 : Bytes → Hash} {w : Walker} {o : SnapshotOptions}

/-- A walker that reads directories completely, and text as it is. -/
structure Lawful (w : Walker) : Prop where
  listing : ∀ des, (w.listing des).Perm des
  text : ∀ s, w.text (utf8Bytes s) = utf8Bytes s

/-- A walk below `p` has added what is found there, and `n` files to the count. -/
structure Built (p : Path) (f : Found) (n : ℕ) (b b' : Builder) : Prop where
  trees : b'.trees.keys = b.trees.keys ∪ f.trees
  files : b'.files.keys = b.files.keys ∪ f.files
  symlinks : b'.symlinks.keys = b.symlinks.keys ∪ f.symlinks
  fileCount : b'.fileCount = b.fileCount + n
  visited : ∀ q ∈ b'.visited, q ∈ b.visited ∨ p <+: q

/-- A part of a walk below `p` that meets these files passes the limit, or comes to `x`. -/
def ComesTo (o : SnapshotOptions) {α : Type} (p : Path) (f : Found) (as : List Bool)
    (x : Except FstreeError α) (r : Option (Except FstreeError α × Builder)) (b : Builder) :
    Prop :=
  if passes o.maxFiles b.fileCount as then ∃ b', r = some (.error .tooManyFiles, b')
  else ∃ b', r = some (x, b') ∧ Built p f (as.count true) b b'

theorem Built.refl (p : Path) (b : Builder) : Built p .none 0 b b :=
  ⟨by simp [Found.none], by simp [Found.none], by simp [Found.none], rfl, fun _ hq => Or.inl hq⟩

theorem Built.trans {p : Path} {f g : Found} {n m : ℕ} {b b' b'' : Builder}
    (h : Built p f n b b') (h' : Built p g m b' b'') : Built p (f.add g) (n + m) b b'' where
  trees := by rw [h'.trees, h.trees, Found.add, Finset.union_assoc]
  files := by rw [h'.files, h.files, Found.add, Finset.union_assoc]
  symlinks := by rw [h'.symlinks, h.symlinks, Found.add, Finset.union_assoc]
  fileCount := by rw [h'.fileCount, h.fileCount, Nat.add_assoc]
  visited q hq := by
    rcases h'.visited q hq with hq | hq
    · exact h.visited q hq
    · exact Or.inr hq

theorem Built.mono {p p' : Path} {f : Found} {n : ℕ} {b b' : Builder} (h : Built p' f n b b')
    (hp : p <+: p') : Built p f n b b' :=
  { h with visited := fun q hq => (h.visited q hq).imp_right hp.trans }

/-- A part that meets no file. -/
theorem ComesTo.quiet {α : Type} {p : Path} {f : Found} {x : Except FstreeError α}
    {b b' : Builder} (h : Built p f 0 b b') : ComesTo o p f [] x (some (x, b')) b := by
  rw [ComesTo, passes, if_neg (by simp)]
  exact ⟨b', rfl, h⟩

theorem keys_insert {α : Type} (m : HashMap Hash α) (k : Hash) (a : α) :
    (m.insert k a).keys = m.keys ∪ {k} := by
  ext k'
  rw [Finmap.mem_keys, Finmap.mem_insert, Finset.mem_union, Finmap.mem_keys,
    Finset.mem_singleton, or_comm]

/-- What `buildEntry` comes to for a node: its entry, or an error that leaves it out. -/
def EntryOf (blake3 : Bytes → Hash) (w : Walker) (o : SnapshotOptions) (n : Node) (p : Path)
    (name : Bytes) (x : Except FstreeError TreeEntry) : Prop :=
  if n.captured o then x = .ok (n.entry blake3 w o p name)
  else ∃ e, x = .error e ∧ e.ends = false

/-- A file is captured or left out, where the limit is not reached. -/
theorem buildFile_comesTo {root : Node} {p : Path} {mode : UInt32} {readable : Bool}
    {content : Bytes} (hroot : root.lookup p = some (.file mode readable content)) (name : Bytes)
    (b : Builder) :
    ∃ x, EntryOf blake3 w o (.file mode readable content) p name x ∧
      ComesTo o p ((Node.file mode readable content).found blake3 w o p)
        ((Node.file mode readable content).attempts w o p) x
        (buildFile blake3 w o root.fileSystem p name (Node.file mode readable content).info b)
        b := by
  set n := Node.file mode readable content with hn
  have hread : root.fileSystem.readFile p = if readable then some content else none := by
    simp only [fileSystem, hroot]
    cases readable <;> rfl
  have hpasses : passes o.maxFiles b.fileCount [n.captured o] =
      decide (o.maxFiles ≤ b.fileCount) := by
    simp [passes]
  have hattempts : n.attempts w o p = [n.captured o] := by rw [hn, attempts]
  rw [buildFile, hread, hattempts]
  by_cases hfull : o.maxFiles ≤ b.fileCount
  · rw [if_pos hfull]
    have hcomes : ∀ x : Except FstreeError TreeEntry,
        ComesTo o p (n.found blake3 w o p) [n.captured o] x
          (some (.error .tooManyFiles, b)) b := by
      intro x
      rw [ComesTo, if_pos (hpasses.trans (decide_eq_true hfull))]
      exact ⟨b, rfl⟩
    by_cases hc : n.captured o
    · exact ⟨_, by rw [EntryOf, if_pos hc], hcomes _⟩
    · exact ⟨.error .io, by rw [EntryOf, if_neg hc]; exact ⟨_, rfl, rfl⟩, hcomes _⟩
  · rw [if_neg hfull]
    have hnot : ¬passes o.maxFiles b.fileCount [n.captured o] = true := by
      rw [hpasses]
      simpa using hfull
    have hleft : n.captured o = false → ∀ e : FstreeError, e.ends = false →
        ∃ x, EntryOf blake3 w o n p name x ∧
          ComesTo o p (n.found blake3 w o p) [n.captured o] x (some (.error e, b)) b := by
      intro hc e he
      refine ⟨.error e, ?_, ?_⟩
      · rw [EntryOf, if_neg (by simp [hc])]
        exact ⟨e, rfl, he⟩
      · rw [ComesTo, if_neg hnot, hc, hn, found, if_neg (by simp [← hn, hc])]
        exact ⟨b, rfl, .refl p b⟩
    by_cases hlarge : o.maxFileSize < n.info.size.toInt64
    · rw [if_pos hlarge]
      refine hleft ?_ _ rfl
      rw [hn] at hlarge ⊢
      simp [captured, info] at hlarge ⊢
      simp [hlarge]
    · rw [if_neg hlarge]
      cases readable with
      | false =>
          refine hleft ?_ _ rfl
          simp [hn, captured]
      | true =>
          have hc : n.captured o = true := by
            rw [hn] at hlarge ⊢
            simpa [captured, info] using hlarge
          refine ⟨.ok (n.entry blake3 w o p name), by rw [EntryOf, if_pos hc], ?_⟩
          have hfound : n.found blake3 w o p =
              { Found.none with files := {blake3 content} } := by
            rw [hn, found, if_pos (hn ▸ hc)]
          rw [ComesTo, if_neg hnot, hc, hfound]
          refine ⟨_, rfl, ?_⟩
          exact
            { trees := by simp [Found.none]
              files := keys_insert _ _ _
              symlinks := by simp [Found.none]
              fileCount := rfl
              visited := fun q hq => Or.inl hq }

/-- One part after the other. -/
theorem ComesTo.after {α : Type} {p : Path} {f g : Found} {as bs : List Bool}
    {x : Except FstreeError α} {r : Option (Except FstreeError α × Builder)} {b b' : Builder}
    (h : ComesTo o p g bs x r b') (hnot : passes o.maxFiles b.fileCount as = false)
    (hb : Built p f (as.count true) b b') : ComesTo o p (f.add g) (as ++ bs) x r b := by
  rw [ComesTo, hb.fileCount] at h
  rw [ComesTo, passes_append, hnot, Bool.false_or]
  by_cases hpasses : passes o.maxFiles (b.fileCount + as.count true) bs = true
  · rw [if_pos hpasses] at h ⊢
    exact h
  · rw [if_neg hpasses] at h ⊢
    obtain ⟨b'', hr, hbuilt⟩ := h
    exact ⟨b'', hr, by rw [List.count_append]; exact hb.trans hbuilt⟩

theorem buildSymlink_comesTo {root : Node} {p : Path} {mode : UInt32} {target : Bytes}
    (hroot : root.lookup p = some (.symlink mode target)) (name : Bytes) (b : Builder) :
    ComesTo o p ((Node.symlink mode target).found blake3 w o p)
      ((Node.symlink mode target).attempts w o p)
      (.ok ((Node.symlink mode target).entry blake3 w o p name))
      (buildSymlink blake3 w root.fileSystem p name (Node.symlink mode target).info b) b := by
  have hread : root.fileSystem.readLink p = some target := by
    simp only [fileSystem, hroot]
  rw [buildSymlink, hread, entry, attempts, found]
  exact .quiet
    { trees := by simp [Found.none]
      files := by simp [Found.none]
      symlinks := keys_insert _ _ _
      fileCount := rfl
      visited := fun q hq => Or.inl hq }

/-- What `buildTree` comes to for a directory: its hash, or an error that leaves it out. -/
def TreeOf (blake3 : Bytes → Hash) (w : Walker) (o : SnapshotOptions) (readable : Bool)
    (entries : List (String × Node)) (p : Path) (x : Except FstreeError Hash) : Prop :=
  if readable then x = .ok (treeHash blake3 w (treeEntries blake3 w o p entries))
  else x = .error .io

/-- A recursive call does what it should for a directory. -/
def Walks (blake3 : Bytes → Hash) (w : Walker) (o : SnapshotOptions)
    (build : Path → Capturing Hash) (p : Path) : Node → Prop
  | .directory mode readable entries => ∀ b : Builder, (∀ q ∈ b.visited, ¬p <+: q) →
      ∃ x, TreeOf blake3 w o readable entries p x ∧
        ComesTo o p ((Node.directory mode readable entries).found blake3 w o p)
          ((Node.directory mode readable entries).attempts w o p) x (build p b) b
  | _ => True

/-- What is made of the outcome of a part. -/
theorem ComesTo.map {α β : Type} {p : Path} {f : Found} {as : List Bool}
    {x : Except FstreeError α} {r : Option (Except FstreeError α × Builder)} {b : Builder}
    (h : ComesTo o p f as x r b) (g : α → β) :
    ComesTo o p f as (x.map g) (r.map fun s => (s.1.map g, s.2)) b := by
  rw [ComesTo] at h ⊢
  split_ifs at h ⊢
  · obtain ⟨b', hr⟩ := h
    exact ⟨b', by rw [hr]; rfl⟩
  · obtain ⟨b', hr, hbuilt⟩ := h
    exact ⟨b', by rw [hr]; rfl, hbuilt⟩

theorem buildEntry_comesTo {root n : Node} {p : Path} (hroot : root.lookup p = some n)
    {build : Path → Capturing Hash} (hbuild : Walks blake3 w o build p n) (name : Bytes)
    {b : Builder} (hvisited : ∀ q ∈ b.visited, ¬p <+: q) :
    ∃ x, EntryOf blake3 w o n p name x ∧
      ComesTo o p (n.found blake3 w o p) (n.attempts w o p) x
        (buildEntry blake3 w o root.fileSystem build p name n.info b) b := by
  cases n with
  | file mode readable content => exact buildFile_comesTo hroot name b
  | symlink mode target =>
      exact ⟨_, by rw [EntryOf, captured, if_pos rfl], buildSymlink_comesTo hroot name b⟩
  | directory mode readable entries =>
      obtain ⟨x, hx, hcomes⟩ := hbuild b hvisited
      refine ⟨x.map fun hash =>
        { name, kind := .directory, mode := w.permissions mode, size := 0, hash }, ?_,
        hcomes.map _⟩
      rw [TreeOf] at hx
      rw [EntryOf, captured]
      cases readable with
      | true =>
          rw [if_pos rfl] at hx ⊢
          rw [hx, entry]
          rfl
      | false =>
          rw [if_neg (by simp)] at hx ⊢
          exact ⟨.io, by rw [hx]; rfl, rfl⟩

/-- **The loop over a directory** comes to the entries that are captured. -/
theorem buildEntries_comesTo (hw : Lawful w) (hfollow : o.followSymlinks = false) {root : Node}
    {p : Path} {build : Path → Capturing Hash} (l : List (String × Node))
    (hnd : (l.map Prod.fst).Nodup)
    (hroot : ∀ e ∈ l, root.lookup (p ++ [utf8Bytes e.1]) = some e.2)
    (hbuild : ∀ e ∈ l, Walks blake3 w o build (p ++ [utf8Bytes e.1]) e.2)
    (acc : List TreeEntry) {b : Builder}
    (hvisited : ∀ q ∈ b.visited, ∀ e ∈ l, ¬(p ++ [utf8Bytes e.1]) <+: q) :
    ComesTo o p (foundAll blake3 w o p l) (l.flatMap (attemptsAt w o p))
      (.ok (acc ++ treeEntries blake3 w o p l))
      (buildEntries blake3 w o root.fileSystem build p (l.map dirEntry) acc b) b := by
  induction l generalizing acc b with
  | nil =>
      rw [foundAll, treeEntries, List.append_nil]
      exact .quiet (.refl p b)
  | cons e l ih =>
      obtain ⟨name, n⟩ := e
      rw [List.map_cons, List.nodup_cons] at hnd
      have hrest := ih hnd.2 (fun e he => hroot e (List.mem_cons_of_mem _ he))
        (fun e he => hbuild e (List.mem_cons_of_mem _ he))
      have hlstat : root.fileSystem.lstat (p ++ [utf8Bytes name]) = some n.info := by
        simp only [fileSystem, hroot (name, n) List.mem_cons_self, Option.map_some]
      rw [List.map_cons, List.flatMap_cons, buildEntries, foundAll, treeEntries, attemptsAt]
      simp only [dirEntry, hw.text, hfollow, hlstat, Bool.false_eq_true, if_false]
      by_cases hexcl : w.excludes o (Path.text (p ++ [utf8Bytes name])) n.isDir = true
      · simp only [hexcl, if_true, true_or, List.nil_append]
        exact hrest acc fun q hq e he => hvisited q hq e (List.mem_cons_of_mem _ he)
      · rw [Bool.not_eq_true] at hexcl
        simp only [hexcl, Bool.false_eq_true, if_false, false_or]
        obtain ⟨x, hx, hcomes⟩ := buildEntry_comesTo (hroot (name, n) List.mem_cons_self)
          (hbuild (name, n) List.mem_cons_self) (utf8Bytes name)
          (fun q hq => hvisited q hq (name, n) List.mem_cons_self)
        rw [ComesTo] at hcomes
        by_cases hpasses : passes o.maxFiles b.fileCount
            (n.attempts w o (p ++ [utf8Bytes name])) = true
        · rw [if_pos hpasses] at hcomes
          obtain ⟨b', hr⟩ := hcomes
          rw [hr, ComesTo, passes_append, hpasses, Bool.true_or, if_pos rfl]
          exact ⟨b', rfl⟩
        · rw [if_neg hpasses] at hcomes
          obtain ⟨b', hr, hbuilt⟩ := hcomes
          rw [hr]
          have hvisited' : ∀ q ∈ b'.visited, ∀ e ∈ l, ¬(p ++ [utf8Bytes e.1]) <+: q := by
            intro q hq e he hpre
            rcases hbuilt.visited q hq with hq | hq
            · exact hvisited q hq e (List.mem_cons_of_mem _ he) hpre
            · have heq := (List.prefix_of_prefix_length_le hpre hq (by simp)).eq_of_length
                (by simp)
              have hname : e.1 = name := utf8Bytes_injective (by simpa using heq)
              exact hnd.1 (List.mem_map.mpr ⟨e, he, hname⟩)
          have hnext := fun acc => (hrest acc hvisited').after (by simpa using hpasses)
            (hbuilt.mono (List.prefix_append p _))
          rw [EntryOf] at hx
          by_cases hc : n.captured o = true
          · rw [if_pos hc] at hx
            subst hx
            simpa [hc] using hnext (acc ++ [n.entry blake3 w o _ (utf8Bytes name)])
          · rw [if_neg hc] at hx
            obtain ⟨e, rfl, he⟩ := hx
            simpa [hc, he] using hnext acc

/-! ### The order of a directory -/

/-- Another order of what a list is mapped to comes from another order of the list. -/
theorem exists_perm_map {α β : Type} (f : α → β) {l : List β} {m : List α}
    (h : l.Perm (m.map f)) : ∃ m' : List α, m'.Perm m ∧ l = m'.map f := by
  have hmap : List.Forall₂ (fun b a => b = f a) (m.map f) m := by
    clear h
    induction m with
    | nil => exact .nil
    | cons a m ih => exact .cons rfl ih
  obtain ⟨m', hm', hperm⟩ := List.perm_comp_forall₂ h hmap
  refine ⟨m', hperm, ?_⟩
  clear hperm hmap h
  induction hm' with
  | nil => rfl
  | cons heq _ ih => rw [heq, ih, List.map_cons]

theorem Found.add_left_comm (f g h : Found) : f.add (g.add h) = g.add (f.add h) := by
  simp only [Found.add, Found.mk.injEq]
  exact ⟨Finset.union_left_comm _ _ _, Finset.union_left_comm _ _ _,
    Finset.union_left_comm _ _ _⟩

theorem foundAll_perm {p : Path} {l m : List (String × Node)} (h : l.Perm m) :
    foundAll blake3 w o p l = foundAll blake3 w o p m := by
  induction h with
  | nil => rfl
  | cons e _ ih => simp only [foundAll, ih]
  | swap e d l =>
      simp only [foundAll]
      split_ifs
      · rfl
      · rfl
      · rfl
      · exact Found.add_left_comm _ _ _
  | trans _ _ ih ih' => exact ih.trans ih'

theorem treeEntries_perm {p : Path} {l m : List (String × Node)} (h : l.Perm m) :
    (treeEntries blake3 w o p l).Perm (treeEntries blake3 w o p m) := by
  induction h with
  | nil => exact .nil
  | cons e _ ih =>
      simp only [treeEntries]
      split_ifs
      · exact ih
      · exact ih.cons _
  | swap e d l =>
      simp only [treeEntries]
      split_ifs
      · exact .refl _
      · exact .refl _
      · exact .refl _
      · exact .swap _ _ _
  | trans _ _ ih ih' => exact ih.trans ih'

/-- The entries are those of the nodes that are not excluded and can be captured. -/
theorem mem_treeEntries {p : Path} {l : List (String × Node)} {e : TreeEntry} :
    e ∈ treeEntries blake3 w o p l ↔
      ∃ d ∈ l, w.excludes o (Path.text (p ++ [utf8Bytes d.1])) d.2.isDir = false ∧
        d.2.captured o = true ∧
        e = d.2.entry blake3 w o (p ++ [utf8Bytes d.1]) (utf8Bytes d.1) := by
  induction l with
  | nil => simp [treeEntries]
  | cons d l ih =>
      rw [treeEntries, List.exists_mem_cons_iff, ← ih]
      split_ifs with hskip
      · refine (or_iff_right ?_).symm
        rintro ⟨hexcl, hc, -⟩
        simp [hexcl, hc] at hskip
      · rw [not_or, Bool.not_eq_true, Bool.not_eq_false] at hskip
        rw [List.mem_cons]
        exact or_congr_left ⟨fun h => ⟨hskip.1, hskip.2, h⟩, fun h => h.2.2⟩

theorem entry_name (n : Node) (p : Path) (name : Bytes) :
    (n.entry blake3 w o p name).name = name := by
  cases n <;> rw [entry]

/-- Entries with distinct names have one order. -/
theorem sortByName_perm {l m : List TreeEntry} (h : l.Perm m)
    (hinj : ∀ a ∈ l, ∀ b ∈ l, a.name = b.name → a = b) : sortByName l = sortByName m := by
  have hanti : ∀ a b, a ∈ sortByName l → b ∈ sortByName m → a.name ≤ b.name →
      b.name ≤ a.name → a = b := by
    intro a b ha hb hab hba
    refine hinj a (mem_sortByName.mp ha) b ?_ (List.le_antisymm hab hba)
    exact h.mem_iff.mpr (mem_sortByName.mp hb)
  exact List.Perm.eq_of_pairwise hanti (List.pairwise_insertionSort _ _)
    (List.pairwise_insertionSort _ _)
    ((List.perm_insertionSort _ _).trans (h.trans (List.perm_insertionSort _ _).symm))

/-- The hash of a directory does not depend on the order in which it is read. -/
theorem treeHash_perm {p : Path} {l m : List (String × Node)} (h : l.Perm m)
    (hnd : (l.map Prod.fst).Nodup) :
    treeHash blake3 w (treeEntries blake3 w o p l) =
      treeHash blake3 w (treeEntries blake3 w o p m) := by
  rw [treeHash, treeHash, sortByName_perm (treeEntries_perm h)]
  intro a ha b hb hab
  obtain ⟨d, hd, -, -, rfl⟩ := mem_treeEntries.mp ha
  obtain ⟨d', hd', -, -, rfl⟩ := mem_treeEntries.mp hb
  rw [entry_name, entry_name] at hab
  rw [List.inj_on_of_nodup_map hnd hd hd' (utf8Bytes_injective hab)]

theorem attemptsAll_eq (p : Path) (l : List (String × Node)) :
    attemptsAll w o p l = l.map fun e => (dirEntry e, attemptsAt w o p e) := by
  induction l with
  | nil => rfl
  | cons e l ih =>
      obtain ⟨name, n⟩ := e
      rw [attemptsAll, ih, List.map_cons, attemptsAt]

/-- The files of a directory, in the order in which it is read. -/
theorem inOrder_attemptsAll {p : Path} {l m : List (String × Node)} (hperm : m.Perm l)
    (hnd : (l.map Prod.fst).Nodup) (h : w.listing (l.map dirEntry) = m.map dirEntry) :
    inOrder w.listing (attemptsAll w o p l) = m.flatMap (attemptsAt w o p) := by
  have hfst : (l.map fun e => (dirEntry e, attemptsAt w o p e)).map Prod.fst = l.map dirEntry := by
    rw [List.map_map]
    rfl
  rw [inOrder, attemptsAll_eq, hfst, h, List.flatMap_map]
  refine List.flatMap_congr fun e he => ?_
  have hlookup : ∀ l' : List (String × Node), (l'.map Prod.fst).Nodup → e ∈ l' →
      (l'.map fun e => (dirEntry e, attemptsAt w o p e)).lookup (dirEntry e) =
        some (attemptsAt w o p e) := by
    intro l' hnd he
    induction l' with
    | nil => cases he
    | cons d l' ih =>
        rw [List.map_cons, List.nodup_cons] at hnd
        rw [List.map_cons, List.lookup_cons]
        rcases List.mem_cons.mp he with rfl | he
        · rw [beq_self_eq_true]
        · have hne : dirEntry e ≠ dirEntry d := by
            intro heq
            have hname : e.1 = d.1 := utf8Bytes_injective (congrArg DirEntry.name heq)
            exact hnd.1 (List.mem_map.mpr ⟨e, he, hname⟩)
          rw [beq_false_of_ne hne]
          exact ih hnd.2 he
  rw [hlookup l hnd (hperm.mem_iff.mp he), Option.getD_some]

/-! ### The walk of a tree -/

theorem buildDir_comesTo (hw : Lawful w) (hfollow : o.followSymlinks = false) {root : Node}
    {p : Path} {build : Path → Capturing Hash} {mode : UInt32} {readable : Bool}
    {entries : List (String × Node)}
    (hroot : root.lookup p = some (.directory mode readable entries))
    (hnd : (entries.map Prod.fst).Nodup)
    (hbuild : ∀ e ∈ entries, Walks blake3 w o build (p ++ [utf8Bytes e.1]) e.2) {b : Builder}
    (hvisited : ∀ q ∈ b.visited, ∀ c, ¬(p ++ [c]) <+: q) :
    ∃ x, TreeOf blake3 w o readable entries p x ∧
      ComesTo o p ((Node.directory mode readable entries).found blake3 w o p)
        ((Node.directory mode readable entries).attempts w o p) x
        (buildDir blake3 w o root.fileSystem build p b) b := by
  have hread : root.fileSystem.readDir p =
      if readable then some (entries.map dirEntry) else none := by
    simp only [fileSystem, hroot]
    cases readable <;> rfl
  simp only [buildDir, hread, found, attempts]
  cases readable with
  | false => exact ⟨.error .io, rfl, .quiet (.refl p b)⟩
  | true =>
      obtain ⟨l, hperm, hlisting⟩ := exists_perm_map dirEntry (hw.listing (entries.map dirEntry))
      have hndl : (l.map Prod.fst).Nodup := (hperm.map Prod.fst).nodup_iff.mpr hnd
      have hloop := buildEntries_comesTo hw hfollow l hndl
        (fun e he => lookup_entry hroot hnd (hperm.mem_iff.mp he))
        (fun e he => hbuild e (hperm.mem_iff.mp he)) []
        (fun q hq e _ => hvisited q hq (utf8Bytes e.1))
      rw [← foundAll_perm hperm, ← treeHash_perm hperm hndl]
      simp only [if_true, hlisting, inOrder_attemptsAll hperm hnd hlisting]
      refine ⟨_, by rw [TreeOf, if_pos rfl, ← treeHash_perm hperm hndl], ?_⟩
      rw [ComesTo] at hloop ⊢
      split_ifs at hloop ⊢
      · obtain ⟨b', hr⟩ := hloop
        exact ⟨b', by rw [hr]⟩
      · obtain ⟨b', hr, hbuilt⟩ := hloop
        rw [hr]
        refine ⟨_, rfl, hbuilt.trans (m := 0) ?_⟩
        exact
          { trees := keys_insert _ _ _
            files := by simp [Found.none]
            symlinks := by simp [Found.none]
            fileCount := rfl
            visited := fun q hq => Or.inl hq }

/-- **A walk of a tree**, if there is fuel for its depth. -/
theorem buildTree_comesTo (hw : Lawful w) (hfollow : o.followSymlinks = false) {root : Node}
    (fuel : ℕ) {p : Path} {n : Node} (hroot : root.lookup p = some n) (hd : n.Distinct)
    (hfuel : n.depth ≤ fuel) :
    Walks blake3 w o (buildTree blake3 w o root.fileSystem fuel) p n := by
  induction fuel generalizing p n with
  | zero =>
      cases n with
      | file | symlink => trivial
      | directory mode readable entries =>
          rw [depth] at hfuel
          omega
  | succ fuel ih =>
      cases n with
      | file | symlink => trivial
      | directory mode readable entries =>
          rw [depth] at hfuel
          rw [Distinct] at hd
          intro b hvisited
          have hp : p ∉ b.visited := fun hp => hvisited p hp (List.prefix_refl p)
          have hcanonical : root.fileSystem.canonical p = some p := by
            simp only [fileSystem, hroot, Option.map_some]
          have hbuild : ∀ e ∈ entries, Walks blake3 w o
              (buildTree blake3 w o root.fileSystem fuel) (p ++ [utf8Bytes e.1]) e.2 :=
            fun e he => ih (lookup_entry hroot hd.1 he) (distinct_of_mem hd.2 he)
              ((depth_le_of_mem he).trans (Nat.le_of_succ_le_succ hfuel))
          have hmarked : ∀ q ∈ insert p b.visited, ∀ c, ¬(p ++ [c]) <+: q := by
            intro q hq c hpre
            rcases Finset.mem_insert.mp hq with rfl | hq
            · have hlen := hpre.length_le
              rw [List.length_append, List.length_singleton] at hlen
              omega
            · exact hvisited q hq ((List.prefix_append p [c]).trans hpre)
          obtain ⟨x, hx, hcomes⟩ := buildDir_comesTo hw hfollow hroot hd.1 hbuild
            (b := { b with visited := insert p b.visited }) hmarked
          refine ⟨x, hx, ?_⟩
          rw [buildTree, hcanonical]
          simp only [if_neg hp]
          rw [ComesTo] at hcomes ⊢
          dsimp only at hcomes
          split_ifs at hcomes ⊢
          · obtain ⟨b', hr⟩ := hcomes
            exact ⟨_, by rw [hr]; rfl⟩
          · obtain ⟨b', hr, hbuilt⟩ := hcomes
            refine ⟨w.leave p x b', by rw [hr]; rfl, { hbuilt with visited := fun q hq => ?_ }⟩
            have hq' : q ∈ b'.visited := by
              rw [Walker.leave] at hq
              dsimp only at hq
              split_ifs at hq
              · exact Finset.mem_of_mem_erase hq
              · exact hq
            rcases hbuilt.visited q hq' with hq' | hq'
            · rcases Finset.mem_insert.mp hq' with rfl | hq'
              · exact Or.inr (List.prefix_refl q)
              · exact Or.inl hq'
            · exact Or.inr hq'

/-- A snapshot has what is found in the tree, under this root. -/
structure Shows (f : Found) (rootHash : Hash) (snap : Snapshot) : Prop where
  rootHash : snap.rootHash = rootHash
  trees : snap.trees.keys = f.trees
  files : snap.files.keys = f.files
  symlinks : snap.symlinks.keys = f.symlinks

/-- **The capture of a directory tree**, if there is fuel for its depth. It passes the limit, or
has what is found in the tree; a directory that cannot be read is an error. -/
theorem capture_outcome (blake3 : Bytes → Hash) (hw : Lawful w) (hfollow : o.followSymlinks = false) {mode : UInt32}
    {readable : Bool} {entries : List (String × Node)} {fuel : ℕ}
    (hd : (Node.directory mode readable entries).Distinct)
    (hfuel : (Node.directory mode readable entries).depth ≤ fuel) :
    let root := Node.directory mode readable entries
    if passes o.maxFiles 0 (root.attempts w o []) then
      capture blake3 w o root.fileSystem fuel = some (.error .tooManyFiles)
    else if readable then
      ∃ snap, capture blake3 w o root.fileSystem fuel = some (.ok snap) ∧
        Shows (root.found blake3 w o []) (treeHash blake3 w (treeEntries blake3 w o [] entries))
          snap
    else capture blake3 w o root.fileSystem fuel = some (.error .io) := by
  intro root
  have hstat : root.fileSystem.stat [] = some root.info := by
    simp only [fileSystem, lookup, root, info, reduceCtorEq, if_false]
  have hwalk : Walks blake3 w o (buildTree blake3 w o root.fileSystem fuel) [] root :=
    buildTree_comesTo hw hfollow fuel rfl hd hfuel
  obtain ⟨x, hx, hcomes⟩ := hwalk Builder.new (fun q hq => absurd hq (Finset.notMem_empty q))
  have hcapture : ∀ r b, buildTree blake3 w o root.fileSystem fuel [] Builder.new = some (r, b) →
      capture blake3 w o root.fileSystem fuel = some (r.map b.snapshot) := by
    intro r b hr
    rw [capture, hstat]
    dsimp only
    rw [if_neg (by simp [root, info]), hr, Option.map_some]
  rw [ComesTo, show Builder.new.fileCount = 0 from rfl] at hcomes
  by_cases hpasses : passes o.maxFiles 0 (root.attempts w o []) = true
  · rw [if_pos hpasses] at hcomes ⊢
    obtain ⟨b', hr⟩ := hcomes
    exact hcapture _ _ hr
  · rw [if_neg hpasses] at hcomes ⊢
    obtain ⟨b', hr, hbuilt⟩ := hcomes
    rw [TreeOf] at hx
    cases readable with
    | false =>
        rw [if_neg (by simp)] at hx ⊢
        rw [hcapture _ _ hr, hx]
        rfl
    | true =>
        rw [if_pos rfl] at hx ⊢
        refine ⟨b'.snapshot _, by rw [hcapture _ _ hr, hx]; rfl, rfl, ?_, ?_, ?_⟩
        · rw [Builder.snapshot, hbuilt.trees]
          simp [Builder.new, root]
        · rw [Builder.snapshot, hbuilt.files]
          simp [Builder.new, root]
        · rw [Builder.snapshot, hbuilt.symlinks]
          simp [Builder.new, root]

end Node

end Cxdb
