import Cxdb.FilteredTrees

/-!
# The Tree Objects of Captures

A capture of a directory tree has the tree objects of the directories that are left, and no
others. Each is under its hash, as far as the hash tells their bytes apart.

## Main results

* `buildTree_adds`: a walk adds only tree objects of directories that are left.
* `Includes.lookup_tree`: the tree object of each of them is under its hash.
-/

open ByteFormat

namespace Cxdb

namespace Node

variable {blake3 : Bytes → Hash} {w : Walker} {o : SnapshotOptions}

/-! ### The tree objects of a capture -/

/-- The tree objects of a builder are such as `T` says. -/
def ObjectsIn (T : List TreeEntry → Prop) (b : Builder) : Prop :=
  ∀ h es, b.trees.lookup h = some es → T es

/-- The tree objects of the directories that are left of a node are such as `T` says. -/
def HasObjects (blake3 : Bytes → Hash) (w : Walker) (o : SnapshotOptions)
    (T : List TreeEntry → Prop) (p : Path) (n : Node) : Prop :=
  ∀ q mode readable l, Includes w o p n q (.directory mode readable l) →
    T (sortByName (treeEntries blake3 w o (p ++ q) l))

variable {T : List TreeEntry → Prop}

theorem HasObjects.inside {p : Path} {mode : UInt32} {readable : Bool}
    {l : List (String × Node)} {e : String × Node}
    (h : HasObjects blake3 w o T p (.directory mode readable l)) (he : e ∈ l)
    (ha : Admits w o p e) : HasObjects blake3 w o T (p ++ [utf8Bytes e.1]) e.2 := by
  intro q mode readable l hm
  have hup := h _ _ _ _ (.inside he ha hm)
  rwa [← List.singleton_append, ← List.append_assoc] at hup

/-- A recursive call for a directory that is left adds only such tree objects. -/
def Adds (blake3 : Bytes → Hash) (w : Walker) (o : SnapshotOptions) (T : List TreeEntry → Prop)
    (build : Path → Capturing Hash) (p : Path) : Node → Prop
  | .directory mode readable l =>
      (readable = true → HasObjects blake3 w o T p (.directory mode readable l)) →
      ∀ b r b', (∀ q ∈ b.visited, ¬p <+: q) → ObjectsIn T b → build p b = some (r, b') →
        ObjectsIn T b'
  | _ => True

/-- A file or a link is captured without a tree object. -/
theorem buildEntry_adds {root n : Node} {p : Path} {build : Path → Capturing Hash}
    (hadds : Adds blake3 w o T build p n)
    (hobjects : n.captured o = true → HasObjects blake3 w o T p n) (name : Bytes)
    {b b' : Builder} {r : Except FstreeError TreeEntry} (hvisited : ∀ q ∈ b.visited, ¬p <+: q)
    (hb : ObjectsIn T b)
    (h : buildEntry blake3 w o root.fileSystem build p name n.info b = some (r, b')) :
    ObjectsIn T b' := by
  cases n with
  | file mode readable content =>
      have hfile : buildFile blake3 w o root.fileSystem p name
          (Node.file mode readable content).info b = some (r, b') := h
      rw [buildFile] at hfile
      split_ifs at hfile
      · obtain ⟨-, rfl⟩ := Prod.mk.inj (Option.some.inj hfile)
        exact hb
      · obtain ⟨-, rfl⟩ := Prod.mk.inj (Option.some.inj hfile)
        exact hb
      · split at hfile
        · obtain ⟨-, rfl⟩ := Prod.mk.inj (Option.some.inj hfile)
          exact hb
        · obtain ⟨-, rfl⟩ := Prod.mk.inj (Option.some.inj hfile)
          exact hb
  | symlink mode target =>
      have hlink : buildSymlink blake3 w root.fileSystem p name
          (Node.symlink mode target).info b = some (r, b') := h
      rw [buildSymlink] at hlink
      split at hlink
      · obtain ⟨-, rfl⟩ := Prod.mk.inj (Option.some.inj hlink)
        exact hb
      · obtain ⟨-, rfl⟩ := Prod.mk.inj (Option.some.inj hlink)
        exact hb
  | directory mode readable l =>
      obtain ⟨⟨x, b₁⟩, hx, heq⟩ := Option.map_eq_some_iff.mp h
      obtain ⟨-, rfl⟩ := Prod.mk.inj heq
      exact hadds (fun hreadable => hobjects hreadable) _ _ _ hvisited hb hx

/-- What a part comes to that has an outcome: an error, or what it comes to without passing the
limit. -/
theorem ComesTo.cases {α : Type} {p : Path} {f : Found} {as : List Bool}
    {x r : Except FstreeError α} {b b' : Builder} (h : ComesTo o p f as x (some (r, b')) b) :
    r = .error .tooManyFiles ∨ r = x ∧ Built p f (as.count true) b b' := by
  rw [ComesTo] at h
  split_ifs at h
  · obtain ⟨b'', heq⟩ := h
    exact Or.inl (Prod.mk.inj (Option.some.inj heq)).1
  · obtain ⟨b'', heq, hbuilt⟩ := h
    obtain ⟨rfl, rfl⟩ := Prod.mk.inj (Option.some.inj heq)
    exact Or.inr ⟨rfl, hbuilt⟩

/-- **The loop over a directory** adds only such tree objects. -/
theorem buildEntries_adds (hw : Lawful w) (hfollow : o.followSymlinks = false) {root : Node}
    {p : Path} {build : Path → Capturing Hash} (l : List (String × Node))
    (hnd : (l.map Prod.fst).Nodup)
    (hroot : ∀ e ∈ l, root.lookup (p ++ [utf8Bytes e.1]) = some e.2)
    (hbuild : ∀ e ∈ l, Walks blake3 w o build (p ++ [utf8Bytes e.1]) e.2)
    (hadds : ∀ e ∈ l, Adds blake3 w o T build (p ++ [utf8Bytes e.1]) e.2)
    (hobjects : ∀ e ∈ l, Admits w o p e → HasObjects blake3 w o T (p ++ [utf8Bytes e.1]) e.2)
    (acc : List TreeEntry) {b b' : Builder} {r : Except FstreeError (List TreeEntry)}
    (hvisited : ∀ q ∈ b.visited, ∀ e ∈ l, ¬(p ++ [utf8Bytes e.1]) <+: q) (hb : ObjectsIn T b)
    (h : buildEntries blake3 w o root.fileSystem build p (l.map dirEntry) acc b = some (r, b')) :
    ObjectsIn T b' := by
  induction l generalizing acc b with
  | nil =>
      obtain ⟨-, rfl⟩ := Prod.mk.inj (Option.some.inj h)
      exact hb
  | cons e l ih =>
      rw [List.map_cons, List.nodup_cons] at hnd
      have hrest := fun acc b => @ih hnd.2 (fun d hd => hroot d (List.mem_cons_of_mem _ hd))
        (fun d hd => hbuild d (List.mem_cons_of_mem _ hd))
        (fun d hd => hadds d (List.mem_cons_of_mem _ hd))
        (fun d hd => hobjects d (List.mem_cons_of_mem _ hd)) acc b
      have hlstat : root.fileSystem.lstat (p ++ [utf8Bytes e.1]) = some e.2.info := by
        simp only [fileSystem, hroot e List.mem_cons_self, Option.map_some]
      rw [List.map_cons, buildEntries] at h
      simp only [dirEntry, hw.text, hfollow, hlstat, Bool.false_eq_true, if_false] at h
      by_cases hexcl : w.excludes o (Path.text (p ++ [utf8Bytes e.1])) e.2.isDir = true
      · rw [if_pos hexcl] at h
        exact hrest acc b (fun q hq d hd => hvisited q hq d (List.mem_cons_of_mem _ hd)) hb h
      · rw [if_neg hexcl] at h
        rw [Bool.not_eq_true] at hexcl
        have hfirst : ∀ q ∈ b.visited, ¬(p ++ [utf8Bytes e.1]) <+: q :=
          fun q hq => hvisited q hq e List.mem_cons_self
        obtain ⟨x, hx, hcomes⟩ := buildEntry_comesTo (hroot e List.mem_cons_self)
          (hbuild e List.mem_cons_self) (utf8Bytes e.1) hfirst
        cases hentry : buildEntry blake3 w o root.fileSystem build (p ++ [utf8Bytes e.1])
            (utf8Bytes e.1) e.2.info b with
        | none =>
            rw [hentry] at h
            cases h
        | some s =>
            obtain ⟨r₁, b₁⟩ := s
            rw [hentry] at h hcomes
            have hb₁ : ObjectsIn T b₁ := buildEntry_adds (hadds e List.mem_cons_self)
              (fun hc => hobjects e List.mem_cons_self ⟨hexcl, hc⟩) (utf8Bytes e.1) hfirst hb hentry
            rcases hcomes.cases with rfl | ⟨rfl, hbuilt⟩
            · have hends : FstreeError.ends .tooManyFiles = true := rfl
              simp only [hends, if_true] at h
              obtain ⟨-, rfl⟩ := Prod.mk.inj (Option.some.inj h)
              exact hb₁
            · have hvisited₁ : ∀ q ∈ b₁.visited, ∀ d ∈ l, ¬(p ++ [utf8Bytes d.1]) <+: q := by
                intro q hq d hd hpre
                rcases hbuilt.visited q hq with hq | hq
                · exact hvisited q hq d (List.mem_cons_of_mem _ hd) hpre
                · have heq := (List.prefix_of_prefix_length_le hpre hq (by simp)).eq_of_length
                    (by simp)
                  have hname : d.1 = e.1 := utf8Bytes_injective (by simpa using heq)
                  exact hnd.1 (List.mem_map.mpr ⟨d, hd, hname⟩)
              cases r₁ with
              | ok te => exact hrest _ b₁ hvisited₁ hb₁ h
              | error er =>
                  dsimp only at h
                  split_ifs at h
                  · obtain ⟨-, rfl⟩ := Prod.mk.inj (Option.some.inj h)
                    exact hb₁
                  · exact hrest _ b₁ hvisited₁ hb₁ h

theorem ObjectsIn.congr {b b' : Builder} (h : ObjectsIn T b) (htrees : b'.trees = b.trees) :
    ObjectsIn T b' := by
  intro k es hes
  rw [htrees] at hes
  exact h k es hes

theorem buildDir_adds (hw : Lawful w) (hfollow : o.followSymlinks = false) {root : Node}
    {p : Path} {build : Path → Capturing Hash} {mode : UInt32} {readable : Bool}
    {l : List (String × Node)} (hroot : root.lookup p = some (.directory mode readable l))
    (hnd : (l.map Prod.fst).Nodup)
    (hbuild : ∀ e ∈ l, Walks blake3 w o build (p ++ [utf8Bytes e.1]) e.2)
    (hadds : ∀ e ∈ l, Adds blake3 w o T build (p ++ [utf8Bytes e.1]) e.2)
    (hobjects : readable = true → HasObjects blake3 w o T p (.directory mode readable l))
    {b b' : Builder} {r : Except FstreeError Hash}
    (hvisited : ∀ q ∈ b.visited, ∀ c, ¬(p ++ [c]) <+: q) (hb : ObjectsIn T b)
    (h : buildDir blake3 w o root.fileSystem build p b = some (r, b')) : ObjectsIn T b' := by
  have hread : root.fileSystem.readDir p = if readable then some (l.map dirEntry) else none := by
    simp only [fileSystem, hroot]
    cases readable <;> rfl
  rw [buildDir, hread] at h
  cases readable with
  | false =>
      obtain ⟨-, rfl⟩ := Prod.mk.inj (Option.some.inj h)
      exact hb
  | true =>
      obtain ⟨m, hperm, hlisting⟩ := exists_perm_map dirEntry (hw.listing (l.map dirEntry))
      have hndm : (m.map Prod.fst).Nodup := (hperm.map Prod.fst).nodup_iff.mpr hnd
      have hmarks : ∀ q ∈ b.visited, ∀ e ∈ m, ¬(p ++ [utf8Bytes e.1]) <+: q :=
        fun q hq e _ => hvisited q hq (utf8Bytes e.1)
      have hlookup : ∀ e ∈ m, root.lookup (p ++ [utf8Bytes e.1]) = some e.2 :=
        fun e he => lookup_entry hroot hnd (hperm.mem_iff.mp he)
      have hwalks : ∀ e ∈ m, Walks blake3 w o build (p ++ [utf8Bytes e.1]) e.2 :=
        fun e he => hbuild e (hperm.mem_iff.mp he)
      have hcomes := buildEntries_comesTo hw hfollow m hndm hlookup hwalks [] hmarks
      simp only [if_true, hlisting] at h
      cases hloop : buildEntries blake3 w o root.fileSystem build p (m.map dirEntry) [] b with
      | none =>
          rw [hloop] at h
          cases h
      | some s =>
          obtain ⟨r₁, b₁⟩ := s
          rw [hloop] at h hcomes
          have hb₁ := buildEntries_adds hw hfollow m hndm hlookup hwalks
            (fun e he => hadds e (hperm.mem_iff.mp he))
            (fun e he ha => (hobjects rfl).inside (hperm.mem_iff.mp he) ha) [] hmarks hb hloop
          cases r₁ with
          | error e =>
              obtain ⟨-, rfl⟩ := Prod.mk.inj (Option.some.inj h)
              exact hb₁
          | ok entries =>
              rcases hcomes.cases with heq | ⟨heq, -⟩
              · cases heq
              · obtain rfl := Except.ok.inj heq
                obtain ⟨-, rfl⟩ := Prod.mk.inj (Option.some.inj h)
                have hsame : sortByName (treeEntries blake3 w o p m) =
                    sortByName (treeEntries blake3 w o p l) :=
                  sortByName_eq hndm hnd fun te => (treeEntries_perm hperm).mem_iff
                have hself : T (sortByName (treeEntries blake3 w o p l)) := by
                  have hhere := hobjects rfl _ _ _ _ .here
                  rwa [List.append_nil] at hhere
                intro k es hes
                dsimp only at hes
                rw [LastWrite.lookup_insert] at hes
                split_ifs at hes
                · rw [List.nil_append, hsame] at hes
                  rwa [← Option.some.inj hes]
                · exact hb₁ k es hes

/-- **A walk of a tree** adds only tree objects of directories that are left. -/
theorem buildTree_adds (hw : Lawful w) (hfollow : o.followSymlinks = false) {root : Node}
    (fuel : ℕ) {p : Path} {n : Node} (hroot : root.lookup p = some n) (hd : n.Distinct)
    (hfuel : n.depth ≤ fuel) :
    Adds blake3 w o T (buildTree blake3 w o root.fileSystem fuel) p n := by
  induction fuel generalizing p n with
  | zero =>
      cases n with
      | file | symlink => trivial
      | directory mode readable l =>
          rw [depth] at hfuel
          omega
  | succ fuel ih =>
      cases n with
      | file | symlink => trivial
      | directory mode readable l =>
          rw [depth] at hfuel
          rw [Distinct] at hd
          intro hobjects b r b' hvisited hb h
          have hp : p ∉ b.visited := fun hp => hvisited p hp (List.prefix_refl p)
          have hcanonical : root.fileSystem.canonical p = some p := by
            simp only [fileSystem, hroot, Option.map_some]
          have hdepth : ∀ e ∈ l, e.2.depth ≤ fuel := fun e he =>
            (depth_le_of_mem he).trans (Nat.le_of_succ_le_succ hfuel)
          have hmarked : ∀ q ∈ insert p b.visited, ∀ c, ¬(p ++ [c]) <+: q := by
            intro q hq c hpre
            rcases Finset.mem_insert.mp hq with rfl | hq
            · have hlen := hpre.length_le
              rw [List.length_append, List.length_singleton] at hlen
              omega
            · exact hvisited q hq ((List.prefix_append p [c]).trans hpre)
          rw [buildTree, hcanonical] at h
          simp only [if_neg hp] at h
          obtain ⟨⟨x, b₁⟩, hx, heq⟩ := Option.map_eq_some_iff.mp h
          obtain ⟨-, rfl⟩ := Prod.mk.inj heq
          have hb₁ := buildDir_adds (b := { b with visited := insert p b.visited }) hw hfollow hroot
            hd.1 (fun e he => buildTree_comesTo hw hfollow fuel (lookup_entry hroot hd.1 he)
              (distinct_of_mem hd.2 he) (hdepth e he))
            (fun e he => ih (lookup_entry hroot hd.1 he) (distinct_of_mem hd.2 he) (hdepth e he))
            hobjects hmarked (hb.congr rfl) hx
          exact hb₁.congr rfl

/-! ### Trees -/

/-- A directory tree: the entries of a directory have distinct names that files can have, and the
lengths and numbers fit into msgpack. -/
structure IsTree (n : Node) : Prop where
  distinct : n.Distinct
  sized : n.Sized
  named : ∀ {q m}, n.lookup q = some m → ∀ c ∈ q, IsFileName c

theorem Includes.lookup {p q : Path} {n m : Node} (h : Includes w o p n q m) (hd : n.Distinct) :
    n.lookup q = some m := by
  induction h with
  | here => rw [Node.lookup]
  | inside he _ _ ih =>
      rw [Distinct] at hd
      rw [lookup_inside hd.1 he]
      exact ih (distinct_of_mem hd.2 he)

theorem Includes.distinct {p q : Path} {n m : Node} (h : Includes w o p n q m)
    (hd : n.Distinct) : m.Distinct := by
  induction h with
  | here => exact hd
  | inside he _ _ ih =>
      rw [Distinct] at hd
      exact ih (distinct_of_mem hd.2 he)

theorem Includes.sized {p q : Path} {n m : Node} (h : Includes w o p n q m) (hs : n.Sized) :
    m.Sized := by
  induction h with
  | here => exact hs
  | inside he _ _ ih =>
      rw [Sized] at hs
      exact ih (sizedAll_iff.mp hs.2 _ he).2

theorem Includes.trans {p q q' : Path} {n m k : Node} (h : Includes w o p n q m)
    (h' : Includes w o (p ++ q) m q' k) : Includes w o p n (q ++ q') k := by
  induction h with
  | here => rwa [List.append_nil] at h'
  | inside he ha _ ih =>
      refine .inside he ha (ih ?_)
      rwa [List.append_assoc, List.singleton_append]

/-- The hash of a directory that is left is found. -/
theorem Includes.found {p q : Path} {n : Node} {mode : UInt32} {readable : Bool}
    {l : List (String × Node)} (h : Includes w o p n q (.directory mode readable l))
    (hc : n.captured o = true) :
    treeHash blake3 w (treeEntries blake3 w o (p ++ q) l) ∈ (n.found blake3 w o p).trees := by
  generalize hm : Node.directory mode readable l = m at h
  induction h with
  | @here p n =>
      subst hm
      have hreadable : readable = true := hc
      rw [Node.found, if_pos hreadable, List.append_nil]
      exact Finset.mem_union_right _ (Finset.mem_singleton_self _)
  | @inside p q mode' readable' l' e m he ha _ ih =>
      have hreadable : readable' = true := hc
      have hsub : ∀ l : List (String × Node), e ∈ l →
          (e.2.found blake3 w o (p ++ [utf8Bytes e.1])).trees ⊆
            (foundAll blake3 w o p l).trees := by
        intro l he
        induction l with
        | nil => cases he
        | cons d l ihl =>
            rw [foundAll]
            rcases List.mem_cons.mp he with rfl | he
            · simp only [ha.excludes, Bool.false_eq_true, if_false]
              exact Finset.subset_union_left
            · split_ifs
              · exact ihl he
              · exact (ihl he).trans Finset.subset_union_right
      rw [Node.found, if_pos hreadable]
      refine Finset.mem_union_left _ (hsub l' he ?_)
      have hin := ih ha.captured hm
      rwa [List.append_assoc, List.singleton_append] at hin

/-- The lengths in a tree object of a directory that is left. -/
theorem treeObject_sized {p : Path} {mode : UInt32} {readable : Bool} {l : List (String × Node)}
    (h : (Node.directory mode readable l).Sized) :
    (sortByName (treeEntries blake3 w o p l)).length < 2 ^ 32 ∧
      ∀ te ∈ sortByName (treeEntries blake3 w o p l), te.name.length < 2 ^ 32 := by
  rw [Sized] at h
  constructor
  · rw [sortByName, List.length_insertionSort]
    exact length_treeEntries_le.trans_lt h.1
  · intro te hte
    obtain ⟨e, he, -, -, rfl⟩ := mem_treeEntries.mp (mem_sortByName.mp hte)
    rw [entry_name]
    exact (sizedAll_iff.mp h.2 e he).1

/-- **The tree object of each directory that is left** is under its hash. -/
theorem Includes.lookup_tree (hw : Lawful w) (hpacks : Packs w.serializeTree)
    (hfollow : o.followSymlinks = false) {mode : UInt32} {l : List (String × Node)} {fuel : ℕ}
    (htree : (Node.directory mode true l).IsTree)
    (hfuel : (Node.directory mode true l).depth ≤ fuel)
    (hnc : NoCollision blake3 ((Node.directory mode true l).allBytes blake3 w o [])
      ((Node.directory mode true l).allBytes blake3 w o []))
    {snap : Snapshot}
    (hsnap : capture blake3 w o (Node.directory mode true l).fileSystem fuel = some (.ok snap))
    {q : Path} {mode' : UInt32} {readable : Bool} {l' : List (String × Node)}
    (h : Includes w o [] (.directory mode true l) q (.directory mode' readable l')) :
    snap.trees.lookup (treeHash blake3 w (treeEntries blake3 w o q l')) =
      some (sortByName (treeEntries blake3 w o q l')) := by
  set root := Node.directory mode true l with hroot
  have hfound : treeHash blake3 w (treeEntries blake3 w o q l') ∈ snap.trees := by
    have hout := capture_outcome blake3 hw hfollow htree.distinct hfuel
    dsimp only at hout
    rw [← hroot, hsnap] at hout
    by_cases hpasses : passes o.maxFiles 0 (root.attempts w o []) = true
    · rw [if_pos hpasses] at hout
      cases hout
    · rw [if_neg hpasses, if_pos rfl] at hout
      obtain ⟨snap', heq, hshows⟩ := hout
      obtain rfl := Except.ok.inj (Option.some.inj heq)
      rw [← Finmap.mem_keys, hshows.trees]
      exact h.found rfl
  have hobjects : ∀ k es, snap.trees.lookup k = some es →
      ∃ q mode readable l, Includes w o [] root q (.directory mode readable l) ∧
        es = sortByName (treeEntries blake3 w o q l) := by
    have hcapture := hsnap
    have hstat : root.fileSystem.stat [] = some root.info := by
      simp only [fileSystem, Node.lookup, root, info, reduceCtorEq, if_false]
    rw [capture, hstat] at hcapture
    dsimp only at hcapture
    rw [if_neg (by simp [root, info])] at hcapture
    obtain ⟨⟨r, b⟩, hbuild, heq⟩ := Option.map_eq_some_iff.mp hcapture
    cases r with
    | error e => cases heq
    | ok rootHash =>
        obtain rfl := Except.ok.inj heq
        exact buildTree_adds (T := fun es => ∃ q mode readable l,
          Includes w o [] root q (.directory mode readable l) ∧
            es = sortByName (treeEntries blake3 w o q l)) hw hfollow fuel rfl htree.distinct hfuel
          (fun _ q mode readable l hm => ⟨q, mode, readable, l, hm, rfl⟩) _ _ _
          (fun q hq => absurd hq (Finset.notMem_empty q)) (by simp [ObjectsIn, Builder.new]) hbuild
  obtain ⟨es, hes⟩ := Finmap.mem_iff.mp hfound
  obtain ⟨q₁, mode₁, readable₁, l₁, hm₁, rfl⟩ := hobjects _ es hes
  have hhash := (capture_closed hsnap).trees hes
  have hbytes := hnc _ ⟨q₁, _, hm₁, Set.mem_singleton _⟩ _ ⟨q, _, h, Set.mem_singleton _⟩ hhash
  obtain ⟨hlen₁, hnames₁⟩ := treeObject_sized (o := o) (p := q₁) (hm₁.sized htree.sized)
  obtain ⟨hlen, hnames⟩ := treeObject_sized (o := o) (p := q) (h.sized htree.sized)
  rw [hes, hpacks hlen₁ hlen hnames₁ hnames hbytes]

end Node

end Cxdb
