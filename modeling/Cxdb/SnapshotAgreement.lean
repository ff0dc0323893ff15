import Mathlib.Data.Set.Insert
import Cxdb.SnapshotTrees
import Cxdb.TreeObjects

/-!
# Snapshots of the Two Clients

When the Go and the Rust client capture the same of a directory tree: the same root, trees,
files and links. They do not for a directory of which nothing is captured (`nil` and the empty
array have different bytes), for a mode with one of the three upper bits, for a link whose target
is not text, where their patterns exclude different files, and where only one of them meets a
file after the last that the limit allows.

## Main results

* `captures_agree_iff`: these are the only differences, as far as the hash tells bytes apart.
* `empty_directory_differs`: the first of them.
-/

open ByteFormat

namespace Cxdb

/-! ### The two walkers -/

theorem toStringLossy_utf8Bytes (s : String) : toStringLossy (utf8Bytes s) = utf8Bytes s := by
  have h := Utf8Chunks.lossy_encode s.toList []
  rw [List.append_nil, Utf8Chunks.lossy_nil, List.append_nil] at h
  rw [toStringLossy, utf8Bytes_eq]
  exact congrArg Utf8Chunks.encode h

theorem Go.walker_lawful : Node.Lawful Go.walker where
  listing des := List.perm_insertionSort _ des
  text _ := rfl

theorem Rust.walker_lawful (glob : Bytes → Bytes → Bool) : Node.Lawful (Rust.walker glob) where
  listing des := .refl des
  text := toStringLossy_utf8Bytes

/-- The two keep the same of a mode without the upper bits, and of no other. -/
theorem permissions_eq_iff (mode : UInt32) : mode &&& 0o777 = mode &&& 0o7777 ↔
    mode &&& 0o7000 = 0 := by
  have hsplit : mode &&& 0o7777 = (mode &&& 0o777) ||| (mode &&& 0o7000) := by
    have hbits : (0o7777 : UInt32) = 0o777 ||| 0o7000 := rfl
    rw [hbits, ← UInt32.toBitVec_inj]
    exact BitVec.and_or_distrib_left
  constructor
  · intro h
    have hand := congrArg (· &&& (0o7000 : UInt32)) h
    simp only [UInt32.and_assoc] at hand
    exact hand.symm.trans (UInt32.and_zero)
  · intro h
    rw [hsplit, h, UInt32.or_zero]

namespace Node

/-- To show something of every node it is enough to show it of a directory whose nodes have it. -/
theorem induction {P : Node → Prop}
    (file : ∀ mode readable content, P (.file mode readable content))
    (directory : ∀ mode readable entries, (∀ e ∈ entries, P e.2) →
      P (.directory mode readable entries))
    (symlink : ∀ mode target, P (.symlink mode target)) (n : Node) : P n :=
  @Node.rec P (fun l => ∀ e ∈ l, P e.2) (fun e => P e.2) file directory symlink
    (fun _ h => nomatch h)
    (fun e l he hl d hd => by
      rcases List.mem_cons.mp hd with rfl | hd
      · exact he
      · exact hl d hd)
    (fun _ _ h => h) n

/-! ### What is captured alike -/

section Alike

variable (glob : Bytes → Bytes → Bool) (o : SnapshotOptions)

/-- Something of a directory is captured. -/
def KeepsSome (p : Path) (entries : List (String × Node)) : Prop :=
  ∃ e ∈ entries, Go.shouldExclude o (Path.text (p ++ [utf8Bytes e.1])) e.2.isDir = false ∧
    e.2.captured o = true

mutual

/-- The two clients capture the same of a node. -/
def Alike (p : Path) : Node → Prop
  | .file mode _ _ => mode &&& 0o7000 = 0
  | .directory mode _ entries =>
      mode &&& 0o7000 = 0 ∧ AlikeAll p entries ∧ KeepsSome o p entries
  | .symlink mode target => mode &&& 0o7000 = 0 ∧ toStringLossy target = target

/-- They exclude the same nodes of a directory, of those that can be captured, and capture the
same of the others. -/
def AlikeAll (p : Path) : List (String × Node) → Prop
  | [] => True
  | (name, n) :: rest =>
      let child := p ++ [utf8Bytes name]
      (n.captured o = true →
        Go.shouldExclude o child.text n.isDir = Rust.shouldExclude glob o child.text n.isDir ∧
          (Go.shouldExclude o child.text n.isDir = false → n.Alike child)) ∧
        AlikeAll p rest

end

end Alike

variable {blake3 : Bytes → Hash} {glob : Bytes → Bytes → Bool} {o : SnapshotOptions}

theorem alikeAll_iff {p : Path} {l : List (String × Node)} :
    AlikeAll glob o p l ↔ ∀ e ∈ l, e.2.captured o = true →
      Go.walker.excludes o (Path.text (p ++ [utf8Bytes e.1])) e.2.isDir =
          (Rust.walker glob).excludes o (Path.text (p ++ [utf8Bytes e.1])) e.2.isDir ∧
        (Go.walker.excludes o (Path.text (p ++ [utf8Bytes e.1])) e.2.isDir = false →
          e.2.Alike glob o (p ++ [utf8Bytes e.1])) := by
  induction l with
  | nil => simp [AlikeAll]
  | cons e l ih =>
      rw [AlikeAll, List.forall_mem_cons, ih]
      rfl

/-- The two clients make the same entry for a node and find the same in it. -/
structure SameIn (blake3 : Bytes → Hash) (glob : Bytes → Bytes → Bool) (o : SnapshotOptions)
    (p : Path) (n : Node) : Prop where
  entry : ∀ name, n.entry blake3 Go.walker o p name = n.entry blake3 (Rust.walker glob) o p name
  found : n.found blake3 Go.walker o p = n.found blake3 (Rust.walker glob) o p

theorem treeEntries_alike {p : Path} {l : List (String × Node)} (h : AlikeAll glob o p l)
    (hl : ∀ e ∈ l, ∀ p, e.2.Alike glob o p → SameIn blake3 glob o p e.2) :
    treeEntries blake3 Go.walker o p l = treeEntries blake3 (Rust.walker glob) o p l := by
  rw [alikeAll_iff] at h
  induction l with
  | nil => rfl
  | cons e l ih =>
      obtain ⟨hfirst, h⟩ := List.forall_mem_cons.mp h
      rw [treeEntries, treeEntries, ih h fun e he => hl e (List.mem_cons_of_mem _ he)]
      by_cases hc : e.2.captured o = true
      · obtain ⟨hexcl, halike⟩ := hfirst hc
        simp only [hexcl] at halike ⊢
        split_ifs with hskip
        · rfl
        · rw [not_or, Bool.not_eq_true] at hskip
          rw [(hl e List.mem_cons_self _ (halike hskip.1)).entry]
      · rw [Bool.not_eq_true] at hc
        rw [if_pos (Or.inr hc), if_pos (Or.inr hc)]

/-- Nothing is found in what cannot be captured. -/
theorem found_uncaptured {w : Walker} {p : Path} {n : Node} (h : n.captured o = false) :
    n.found blake3 w o p = Found.none := by
  cases n with
  | file mode readable content => rw [found, if_neg (by simp [h])]
  | directory mode readable entries =>
      rw [captured] at h
      rw [found, if_neg (by simp [h])]
  | symlink mode target => simp [captured] at h

theorem Found.none_add (f : Found) : Found.none.add f = f := by
  simp [Found.add, Found.none]

theorem foundAll_alike {p : Path} {l : List (String × Node)} (h : AlikeAll glob o p l)
    (hl : ∀ e ∈ l, ∀ p, e.2.Alike glob o p → SameIn blake3 glob o p e.2) :
    foundAll blake3 Go.walker o p l = foundAll blake3 (Rust.walker glob) o p l := by
  rw [alikeAll_iff] at h
  induction l with
  | nil => rfl
  | cons e l ih =>
      obtain ⟨hfirst, h⟩ := List.forall_mem_cons.mp h
      rw [foundAll, foundAll, ih h fun e he => hl e (List.mem_cons_of_mem _ he)]
      by_cases hc : e.2.captured o = true
      · obtain ⟨hexcl, halike⟩ := hfirst hc
        rw [hexcl] at halike ⊢
        split_ifs with hskip
        · rfl
        · rw [(hl e List.mem_cons_self _ (halike (Bool.eq_false_of_not_eq_true hskip))).found]
      · rw [Bool.not_eq_true] at hc
        simp only [found_uncaptured hc, Found.none_add, ite_self]

/-- The tree object of the Go client is not empty. -/
theorem keepsSome_iff {p : Path} {l : List (String × Node)} :
    KeepsSome o p l ↔ treeEntries blake3 Go.walker o p l ≠ [] := by
  constructor
  · rintro ⟨e, he, hexcl, hc⟩
    have hmem : e.2.entry blake3 Go.walker o (p ++ [utf8Bytes e.1]) (utf8Bytes e.1) ∈
        treeEntries blake3 Go.walker o p l := mem_treeEntries.mpr ⟨e, he, hexcl, hc, rfl⟩
    exact List.ne_nil_of_mem hmem
  · intro hne
    obtain ⟨te, hte⟩ := List.exists_mem_of_ne_nil _ hne
    obtain ⟨e, he, hexcl, hc, -⟩ := mem_treeEntries.mp hte
    exact ⟨e, he, hexcl, hc⟩

theorem sortByName_eq_nil {es : List TreeEntry} : sortByName es = [] ↔ es = [] := by
  rw [← List.length_eq_zero_iff, ← List.length_eq_zero_iff, sortByName,
    (List.perm_insertionSort _ es).length_eq]

/-- The bytes of a tree object that is not empty are the same. -/
theorem treeHash_alike {p : Path} {l : List (String × Node)} (h : AlikeAll glob o p l)
    (hsome : KeepsSome o p l)
    (hl : ∀ e ∈ l, ∀ p, e.2.Alike glob o p → SameIn blake3 glob o p e.2) :
    treeHash blake3 Go.walker (treeEntries blake3 Go.walker o p l) =
      treeHash blake3 (Rust.walker glob) (treeEntries blake3 (Rust.walker glob) o p l) := by
  rw [keepsSome_iff, treeEntries_alike h hl] at hsome
  rw [treeEntries_alike h hl, treeHash, treeHash]
  exact congrArg blake3 (if_neg (sortByName_eq_nil.not.mpr hsome))

/-- **What is captured alike is the same.** -/
theorem Alike.sameIn {n : Node} {p : Path} (h : n.Alike glob o p) : SameIn blake3 glob o p n := by
  induction n using induction generalizing p with
  | file mode readable content =>
      rw [Alike] at h
      refine ⟨fun name => ?_, by rw [found, found]⟩
      rw [entry, entry]
      simp only [Go.walker, Rust.walker, (permissions_eq_iff mode).mpr h]
  | symlink mode target =>
      rw [Alike] at h
      refine ⟨fun name => ?_, ?_⟩
      · rw [entry, entry]
        simp only [Go.walker, Rust.walker, (permissions_eq_iff mode).mpr h.1, h.2, id_eq]
      · rw [found, found]
        simp only [Go.walker, Rust.walker, h.2, id_eq]
  | directory mode readable entries ih =>
      rw [Alike] at h
      have hl : ∀ e ∈ entries, ∀ p, e.2.Alike glob o p → SameIn blake3 glob o p e.2 :=
        fun e he p h => ih e he h
      have hhash := treeHash_alike h.2.1 h.2.2 hl
      refine ⟨fun name => ?_, ?_⟩
      · rw [entry, entry, hhash]
        simp only [Go.walker, Rust.walker, (permissions_eq_iff mode).mpr h.1]
      · rw [found, found, hhash, foundAll_alike h.2.1 hl]

/-! ### What agreement tells -/

section Hashed

variable (blake3 : Bytes → Hash) (w : Walker) (o : SnapshotOptions)

mutual

/-- The bytes that a walker hashes for a node. -/
def hashed (p : Path) : Node → Set Bytes
  | .file _ _ content => {content}
  | .directory _ _ entries =>
      insert (w.serializeTree (sortByName (treeEntries blake3 w o p entries))) (hashedAll p entries)
  | .symlink _ target => {w.text target}

def hashedAll (p : Path) : List (String × Node) → Set Bytes
  | [] => ∅
  | (name, n) :: rest =>
      let child := p ++ [utf8Bytes name]
      if w.excludes o child.text n.isDir ∨ n.captured o = false then hashedAll p rest
      else n.hashed child ∪ hashedAll p rest

end

end Hashed

/-- Nothing of `s` has the hash of something else in `t`. -/
def NoCollision (blake3 : Bytes → Hash) (s t : Set Bytes) : Prop :=
  ∀ a ∈ s, ∀ b ∈ t, blake3 a = blake3 b → a = b

mutual

/-- The lengths of the names and the numbers of entries fit into 32 bits. -/
def Sized : Node → Prop
  | .directory _ _ entries => entries.length < 2 ^ 32 ∧ SizedAll entries
  | _ => True

def SizedAll : List (String × Node) → Prop
  | [] => True
  | (name, n) :: rest => (utf8Bytes name).length < 2 ^ 32 ∧ n.Sized ∧ SizedAll rest

end

theorem NoCollision.mono {s s' t t' : Set Bytes} (h : NoCollision blake3 s t) (hs : s' ⊆ s)
    (ht : t' ⊆ t) : NoCollision blake3 s' t' :=
  fun a ha b hb => h a (hs ha) b (ht hb)

theorem sizedAll_iff {l : List (String × Node)} :
    SizedAll l ↔ ∀ e ∈ l, (utf8Bytes e.1).length < 2 ^ 32 ∧ e.2.Sized := by
  induction l with
  | nil => simp [SizedAll]
  | cons e l ih => rw [SizedAll, List.forall_mem_cons, ih, and_assoc]

theorem hashed_subset {w : Walker} {p : Path} {l : List (String × Node)} {e : String × Node}
    (he : e ∈ l) (hexcl : w.excludes o (Path.text (p ++ [utf8Bytes e.1])) e.2.isDir = false)
    (hc : e.2.captured o = true) :
    e.2.hashed blake3 w o (p ++ [utf8Bytes e.1]) ⊆ hashedAll blake3 w o p l := by
  induction l with
  | nil => cases he
  | cons d l ih =>
      rw [hashedAll]
      rcases List.mem_cons.mp he with rfl | he
      · rw [if_neg (by simp [hexcl, hc])]
        exact Set.subset_union_left
      · split_ifs
        · exact ih he
        · exact (ih he).trans Set.subset_union_right

theorem length_treeEntries_le {w : Walker} {p : Path} {l : List (String × Node)} :
    (treeEntries blake3 w o p l).length ≤ l.length := by
  induction l with
  | nil => exact le_rfl
  | cons e l ih =>
      rw [treeEntries]
      split_ifs
      · exact ih.trans (Nat.le_succ _)
      · exact Nat.succ_le_succ ih

/-- A tree object that is the same for both clients is not empty, and has the same entries. -/
theorem entries_of_treeHash {p : Path} {l : List (String × Node)} (hlen : l.length < 2 ^ 32)
    (hsized : SizedAll l)
    (hnc : NoCollision blake3 ((Node.directory 0 true l).hashed blake3 Go.walker o p)
      ((Node.directory 0 true l).hashed blake3 (Rust.walker glob) o p))
    (h : treeHash blake3 Go.walker (treeEntries blake3 Go.walker o p l) =
      treeHash blake3 (Rust.walker glob) (treeEntries blake3 (Rust.walker glob) o p l)) :
    KeepsSome o p l ∧ ∀ te, te ∈ treeEntries blake3 Go.walker o p l ↔
      te ∈ treeEntries blake3 (Rust.walker glob) o p l := by
  have hlens : ∀ w, (sortByName (treeEntries blake3 w o p l)).length < 2 ^ 32 := by
    intro w
    rw [sortByName, List.length_insertionSort]
    exact length_treeEntries_le.trans_lt hlen
  have hnames : ∀ w, ∀ te ∈ sortByName (treeEntries blake3 w o p l),
      te.name.length < 2 ^ 32 := by
    intro w te hte
    obtain ⟨e, he, -, -, rfl⟩ := mem_treeEntries.mp (mem_sortByName.mp hte)
    rw [entry_name]
    exact (sizedAll_iff.mp hsized e he).1
  rw [hashed, hashed] at hnc
  have hbytes : Go.serializeTree (sortByName (treeEntries blake3 Go.walker o p l)) =
      Rust.serializeTree (sortByName (treeEntries blake3 (Rust.walker glob) o p l)) :=
    hnc _ (Set.mem_insert _ _) _ (Set.mem_insert _ _) h
  rw [Go.serializeTree] at hbytes
  split_ifs at hbytes with hnil
  · exact absurd hbytes.symm (serializeTree_ne_nil _)
  · have hsame := serializeTree_injective (hlens _) (hlens _) (hnames _) (hnames _) hbytes
    refine ⟨keepsSome_iff.mpr (sortByName_eq_nil.not.mp hnil), fun te => ?_⟩
    rw [← mem_sortByName, hsame, mem_sortByName]

/-- An entry under the name of a node is the one for that node, which is not excluded. -/
theorem entry_of_mem {w : Walker} {p : Path} {l : List (String × Node)}
    (hnd : (l.map Prod.fst).Nodup) {e : String × Node} (he : e ∈ l) {te : TreeEntry}
    (hname : te.name = utf8Bytes e.1) (hte : te ∈ treeEntries blake3 w o p l) :
    w.excludes o (Path.text (p ++ [utf8Bytes e.1])) e.2.isDir = false ∧
      te = e.2.entry blake3 w o (p ++ [utf8Bytes e.1]) (utf8Bytes e.1) := by
  obtain ⟨d, hd, hexcl, -, rfl⟩ := mem_treeEntries.mp hte
  rw [entry_name] at hname
  obtain rfl := List.inj_on_of_nodup_map hnd hd he (utf8Bytes_injective hname)
  exact ⟨hexcl, rfl⟩

/-- The nodes of a directory with one tree object are captured alike, if those are whose entries
are the same. -/
theorem alikeAll_of_treeHash {p : Path} {l : List (String × Node)} (hnd : (l.map Prod.fst).Nodup)
    (hd : DistinctAll l) (hlen : l.length < 2 ^ 32) (hsized : SizedAll l)
    (hnc : NoCollision blake3 ((Node.directory 0 true l).hashed blake3 Go.walker o p)
      ((Node.directory 0 true l).hashed blake3 (Rust.walker glob) o p))
    (hl : ∀ e ∈ l, ∀ {p name}, e.2.Distinct → e.2.Sized →
      NoCollision blake3 (e.2.hashed blake3 Go.walker o p)
        (e.2.hashed blake3 (Rust.walker glob) o p) →
      e.2.entry blake3 Go.walker o p name = e.2.entry blake3 (Rust.walker glob) o p name →
      e.2.Alike glob o p)
    (h : treeHash blake3 Go.walker (treeEntries blake3 Go.walker o p l) =
      treeHash blake3 (Rust.walker glob) (treeEntries blake3 (Rust.walker glob) o p l)) :
    AlikeAll glob o p l ∧ KeepsSome o p l := by
  obtain ⟨hsome, hmem⟩ := entries_of_treeHash hlen hsized hnc h
  refine ⟨alikeAll_iff.mpr fun e he hc => ?_, hsome⟩
  set child := p ++ [utf8Bytes e.1] with hchild
  set goEntry := e.2.entry blake3 Go.walker o child (utf8Bytes e.1) with hgo
  set rustEntry := e.2.entry blake3 (Rust.walker glob) o child (utf8Bytes e.1) with hrust
  have hof : Go.walker.excludes o child.text e.2.isDir = false →
      (Rust.walker glob).excludes o child.text e.2.isDir = false ∧ goEntry = rustEntry := by
    intro hexcl
    have hte : goEntry ∈ treeEntries blake3 Go.walker o p l :=
      mem_treeEntries.mpr ⟨e, he, hexcl, hc, rfl⟩
    exact entry_of_mem hnd he (entry_name ..) ((hmem _).mp hte)
  have hto : (Rust.walker glob).excludes o child.text e.2.isDir = false →
      Go.walker.excludes o child.text e.2.isDir = false := by
    intro hexcl
    have hte : rustEntry ∈ treeEntries blake3 (Rust.walker glob) o p l :=
      mem_treeEntries.mpr ⟨e, he, hexcl, hc, rfl⟩
    exact (entry_of_mem hnd he (entry_name ..) ((hmem _).mpr hte)).1
  refine ⟨?_, fun hexcl => ?_⟩
  · exact Bool.eq_iff_iff.mpr (by simpa using not_congr ⟨fun h => (hof h).1, hto⟩)
  · obtain ⟨hexcl', heq⟩ := hof hexcl
    refine hl e he (distinct_of_mem hd he) (sizedAll_iff.mp hsized e he).2 ?_ heq
    rw [hashed, hashed] at hnc
    exact hnc.mono ((hashed_subset he hexcl hc).trans (Set.subset_insert _ _))
      ((hashed_subset he hexcl' hc).trans (Set.subset_insert _ _))

/-- **Nodes with one entry are captured alike.** -/
theorem alike_of_entry {n : Node} {p : Path} {name : Bytes} (hd : n.Distinct) (hsized : n.Sized)
    (hnc : NoCollision blake3 (n.hashed blake3 Go.walker o p)
      (n.hashed blake3 (Rust.walker glob) o p))
    (h : n.entry blake3 Go.walker o p name = n.entry blake3 (Rust.walker glob) o p name) :
    n.Alike glob o p := by
  induction n using induction generalizing p name with
  | file mode readable content =>
      rw [entry, entry] at h
      rw [Alike]
      exact (permissions_eq_iff mode).mp (congrArg TreeEntry.mode h)
  | symlink mode target =>
      rw [entry, entry] at h
      rw [hashed, hashed] at hnc
      rw [Alike]
      exact ⟨(permissions_eq_iff mode).mp (congrArg TreeEntry.mode h),
        (hnc _ rfl _ rfl (congrArg TreeEntry.hash h)).symm⟩
  | directory mode readable entries ih =>
      rw [entry, entry] at h
      rw [Distinct] at hd
      rw [Sized] at hsized
      rw [Alike]
      exact ⟨(permissions_eq_iff mode).mp (congrArg TreeEntry.mode h),
        alikeAll_of_treeHash hd.1 hd.2 hsized.1 hsized.2 hnc ih (congrArg TreeEntry.hash h)⟩

end Node

/-! ### Captures -/

/-- Two captures come to the same: to the same root, trees, files and links, or to the same
error. -/
def SameCapture : Option (Except FstreeError Snapshot) → Option (Except FstreeError Snapshot) →
    Prop
  | some (.ok s), some (.ok s') => s.rootHash = s'.rootHash ∧ s.trees.keys = s'.trees.keys ∧
      s.files.keys = s'.files.keys ∧ s.symlinks.keys = s'.symlinks.keys
  | some (.error e), some (.error e') => e = e'
  | _, _ => False

/-- A walk of the tree passes the limit for the number of files. -/
def Node.Exceeds (w : Walker) (o : SnapshotOptions) (root : Node) : Prop :=
  Node.passes o.maxFiles 0 (root.attempts w o []) = true

/-- When the clients capture the same of a directory tree. Both pass the limit for the number of
files, or neither does and they capture the same of what is in it. -/
def CapturedAlike (glob : Bytes → Bytes → Bool) (o : SnapshotOptions) (mode : UInt32)
    (readable : Bool) (entries : List (String × Node)) : Prop :=
  let root := Node.directory mode readable entries
  (root.Exceeds Go.walker o ∧ root.Exceeds (Rust.walker glob) o) ∨
    (¬root.Exceeds Go.walker o ∧ ¬root.Exceeds (Rust.walker glob) o ∧
      (readable = true → Node.AlikeAll glob o [] entries ∧ Node.KeepsSome o [] entries))

section

variable {blake3 : Bytes → Hash} {glob : Bytes → Bytes → Bool} {o : SnapshotOptions}
  {mode : UInt32} {readable : Bool} {entries : List (String × Node)} {fuel : ℕ}

/-- Two captures come to the same if both pass the limit, or neither does and the roots and what
is found are the same. -/
theorem sameCapture_iff (hfollow : o.followSymlinks = false) {root : Node}
    (hroot : root = .directory mode readable entries) (hd : root.Distinct)
    (hfuel : root.depth ≤ fuel) :
    SameCapture (capture blake3 Go.walker o root.fileSystem fuel)
        (capture blake3 (Rust.walker glob) o root.fileSystem fuel) ↔
      (root.Exceeds Go.walker o ∧ root.Exceeds (Rust.walker glob) o) ∨
        (¬root.Exceeds Go.walker o ∧ ¬root.Exceeds (Rust.walker glob) o ∧
          (readable = true →
            Node.treeHash blake3 Go.walker (Node.treeEntries blake3 Go.walker o [] entries) =
              Node.treeHash blake3 (Rust.walker glob)
                (Node.treeEntries blake3 (Rust.walker glob) o [] entries) ∧
            root.found blake3 Go.walker o [] = root.found blake3 (Rust.walker glob) o [])) := by
  subst hroot
  have hgo := Node.capture_outcome blake3 Go.walker_lawful hfollow hd hfuel
  have hrust := Node.capture_outcome blake3 (Rust.walker_lawful glob) hfollow hd hfuel
  dsimp only at hgo hrust
  simp only [Node.Exceeds]
  set root := Node.directory mode readable entries with hroot
  by_cases hpg : Node.passes o.maxFiles 0 (root.attempts Go.walker o []) = true <;>
    by_cases hpr : Node.passes o.maxFiles 0 (root.attempts (Rust.walker glob) o []) = true
  · rw [if_pos hpg] at hgo
    rw [if_pos hpr] at hrust
    simp [hgo, hrust, hpg, hpr, SameCapture]
  · rw [if_pos hpg] at hgo
    rw [if_neg hpr] at hrust
    split_ifs at hrust
    · obtain ⟨s', hrust, -⟩ := hrust
      simp [hgo, hrust, hpg, hpr, SameCapture]
    · simp [hgo, hrust, hpg, hpr, SameCapture]
  · rw [if_neg hpg] at hgo
    rw [if_pos hpr] at hrust
    split_ifs at hgo
    · obtain ⟨s, hgo, -⟩ := hgo
      simp [hgo, hrust, hpg, hpr, SameCapture]
    · simp [hgo, hrust, hpg, hpr, SameCapture]
  · rw [if_neg hpg] at hgo
    rw [if_neg hpr] at hrust
    split_ifs at hgo hrust with hr
    · obtain ⟨s, hgo, hs⟩ := hgo
      obtain ⟨s', hrust, hs'⟩ := hrust
      simp only [hgo, hrust, hpg, hpr, hr, SameCapture, hs.rootHash, hs'.rootHash, hs.trees,
        hs'.trees, hs.files, hs'.files, hs.symlinks, hs'.symlinks, Node.Found.ext_iff]
      simp
    · simp [hgo, hrust, hpg, hpr, hr, SameCapture]

/-- **When the two clients agree on a directory tree.** -/
theorem captures_agree_iff (blake3 : Bytes → Hash) (glob : Bytes → Bytes → Bool)
    (o : SnapshotOptions) (mode : UInt32) (readable : Bool) (entries : List (String × Node))
    (fuel : ℕ) (hfollow : o.followSymlinks = false)
    (hd : (Node.directory mode readable entries).Distinct)
    (hfuel : (Node.directory mode readable entries).depth ≤ fuel) :
    let root := Node.directory mode readable entries
    let go := capture blake3 Go.walker o root.fileSystem fuel
    let rust := capture blake3 (Rust.walker glob) o root.fileSystem fuel
    (CapturedAlike glob o mode readable entries → SameCapture go rust) ∧
      (Node.NoCollision blake3 (root.hashed blake3 Go.walker o [])
          (root.hashed blake3 (Rust.walker glob) o []) → root.Sized →
        SameCapture go rust → CapturedAlike glob o mode readable entries) := by
  intro root go rust
  rw [CapturedAlike, sameCapture_iff hfollow rfl hd hfuel]
  refine ⟨Or.imp_right fun ⟨hpg, hpr, h⟩ => ⟨hpg, hpr, fun hr => ?_⟩,
    fun hnc hsized => Or.imp_right fun ⟨hpg, hpr, h⟩ => ⟨hpg, hpr, fun hr => ?_⟩⟩
  · obtain ⟨halike, hsome⟩ := h hr
    have hl : ∀ e ∈ entries, ∀ p, e.2.Alike glob o p → Node.SameIn blake3 glob o p e.2 :=
      fun _ _ _ halike => halike.sameIn
    have hhash := Node.treeHash_alike halike hsome hl
    refine ⟨hhash, ?_⟩
    rw [Node.found, Node.found, hhash, Node.foundAll_alike halike hl]
  · simp only [root, Node.hashed] at hnc
    rw [Node.Sized] at hsized
    rw [Node.Distinct] at hd
    refine Node.alikeAll_of_treeHash hd.1 hd.2 hsized.1 hsized.2 ?_
      (fun e _ _ _ hde hse hnce heq => Node.alike_of_entry hde hse hnce heq) (h hr).1
    rw [Node.hashed, Node.hashed]
    exact hnc

/-- The condition can be met: a directory with one file. -/
theorem captures_agree_iff_oneFile :
    let root := Node.directory 0o40755 true [("a", .file 0o100644 true [])]
    SameCapture (capture headDigest Go.walker .default root.fileSystem 1)
      (capture headDigest (Rust.walker fun _ _ => false) .default root.fileSystem 1) := by
  set file := Node.file 0o100644 true []
  have hexceeds : ∀ w : Walker, w = Go.walker ∨ w = Rust.walker (fun _ _ => false) →
      ¬(Node.directory 0o40755 true [("a", file)]).Exceeds w .default := by
    simp only [Node.Exceeds]
    rintro w (rfl | rfl) <;> decide
  have halike : CapturedAlike (fun _ _ => false) .default 0o40755 true [("a", file)] := by
    refine Or.inr ⟨hexceeds _ (Or.inl rfl), hexceeds _ (Or.inr rfl), fun _ => ⟨?_, ?_⟩⟩
    · rw [Node.AlikeAll, Node.AlikeAll]
      exact ⟨fun _ => ⟨rfl, fun _ => by rw [Node.Alike]; rfl⟩, trivial⟩
    · exact ⟨_, List.mem_singleton_self _, rfl, by decide⟩
  exact (captures_agree_iff headDigest (fun _ _ => false) .default 0o40755 true
    [("a", file)] 1 rfl (by simp [Node.Distinct, Node.DistinctAll, file])
    (by simp [Node.depth, Node.depthAll, file])).1 halike

/-- The two clients do not agree on an empty directory. -/
theorem empty_directory_differs :
    let root := Node.directory 0o40755 true []
    ¬SameCapture (capture headDigest Go.walker .default root.fileSystem 1)
      (capture headDigest (Rust.walker fun _ _ => false) .default root.fileSystem 1) := by
  intro root
  have hnot : ¬root.Exceeds Go.walker .default := by
    rw [Node.Exceeds]
    decide
  have hhash : Node.treeHash headDigest Go.walker [] ≠
      Node.treeHash headDigest (Rust.walker fun _ _ => false) [] := by
    decide
  rw [sameCapture_iff rfl rfl (by simp [Node.Distinct, Node.DistinctAll])
    (by simp [Node.depth, Node.depthAll])]
  rintro (⟨hexceeds, -⟩ | ⟨-, -, hsame⟩)
  · exact hnot hexceeds
  · exact hhash (hsame rfl).1

end

end Cxdb
