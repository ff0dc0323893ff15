import Cxdb.CapturedWalks

/-!
# What Captures Tell

A capture of a directory tree tells what is left of it, unless the walk meets a file when it has
captured as many as the limit allows, be it one that it would leave out, or (in Rust) the target of
a link is not text. A walk of the snapshot comes to each entry that is left once.

## Main results

* `faithful_iff`: when a capture tells what is left of a tree.
* `capture_fidelity`: when two captures do, and their roots tell whether it is the same.
* `target_is_replaced`: a target that is not text.
-/

open ByteFormat

namespace Cxdb

namespace Node

variable {blake3 : Bytes → Hash} {w : Walker} {o : SnapshotOptions} {r : TreeReader}
  {snap : Snapshot}

/-! ### Captures -/

/-- An entry of a snapshot tells of a node: its kind, its permissions, its size, and the hash of
its content or of its target. -/
def Describes (blake3 : Bytes → Hash) (w : Walker) (te : TreeEntry) : Node → Prop
  | .file mode _ content =>
      te.kind = .file ∧ te.mode = w.permissions mode ∧
        te.size = UInt64.ofNat content.length ∧ te.hash = blake3 content
  | .directory mode _ _ => te.kind = .directory ∧ te.mode = w.permissions mode ∧ te.size = 0
  | .symlink mode target =>
      te.kind = .symlink ∧ te.mode = w.permissions mode ∧
        te.size = UInt64.ofNat target.length ∧ te.hash = blake3 target

/-- A snapshot tells what is left of a tree: a walk comes to each entry once, under its path, and
the snapshot has what its tree objects name. -/
structure Tells (blake3 : Bytes → Hash) (w : Walker) (o : SnapshotOptions) (r : TreeReader)
    (root : Node) (snap : Snapshot) : Prop where
  walk : ∃ vs : List Visit, WalksOver r snap vs ∧ (vs.map Prod.fst).Nodup ∧
    (∀ v ∈ vs, ∃ q n, LeftBelow w o [] root q n ∧ v.1 = Path.text q ∧
      q.getLast? = some v.2.name ∧ Describes blake3 w v.2 n) ∧
    ∀ q n, LeftBelow w o [] root q n → ∃ te, (Path.text q, te) ∈ vs ∧ Describes blake3 w te n
  closed : snap.Closed blake3 w

/-- **A capture is faithful**: it makes a snapshot that tells what is left of the tree, under a root
that does not depend on the order of the entries. -/
def Faithful (blake3 : Bytes → Hash) (w : Walker) (o : SnapshotOptions) (r : TreeReader)
    (fuel : ℕ) (root : Node) : Prop :=
  ∃ snap, capture blake3 w o root.fileSystem fuel = some (.ok snap) ∧
    Tells blake3 w o r root snap ∧
    ∀ root' : Node, root'.IsTree → root.Same root' → root'.depth ≤ fuel → ∀ snap',
      capture blake3 w o root'.fileSystem fuel = some (.ok snap') → snap'.rootHash = snap.rootHash

/-- A capture can be faithful: the directory can be read, the walk does not meet a file when it has
captured as many as the limit allows, and the targets of the links that are left are text. -/
structure CanTell (w : Walker) (o : SnapshotOptions) (root : Node) : Prop where
  readable : root.captured o = true
  within : passes o.maxFiles 0 (root.attempts w o []) = false
  targets : KeepsTargets w o [] root

theorem describes_entry {p : Path} {name : Bytes} {n : Node}
    (h : ∀ mode target, n = .symlink mode target → w.text target = target) :
    Describes blake3 w (n.entry blake3 w o p name) n := by
  cases n with
  | file mode readable content =>
      rw [entry]
      exact ⟨rfl, rfl, rfl, rfl⟩
  | directory mode readable l =>
      rw [entry]
      exact ⟨rfl, rfl, rfl⟩
  | symlink mode target =>
      rw [entry, h mode target rfl]
      exact ⟨rfl, rfl, rfl, rfl⟩

theorem Same.directory {mode : UInt32} {readable : Bool} {l : List (String × Node)} {n : Node}
    (h : (Node.directory mode readable l).Same n) : ∃ l', n = .directory mode readable l' := by
  have hbare := h.bare
  cases n with
  | file => cases hbare
  | symlink => cases hbare
  | directory mode' readable' l' =>
      obtain ⟨rfl, rfl, -⟩ := Node.directory.inj hbare
      exact ⟨l', rfl⟩

/-- **A capture is faithful** if and only if it can be. -/
theorem faithful_iff (hw : Lawful w) (hpacks : Packs w.serializeTree) (hr : ReadsPaths r)
    (hfollow : o.followSymlinks = false) {mode : UInt32} {readable : Bool}
    {l : List (String × Node)} {fuel : ℕ} (htree : (Node.directory mode readable l).IsTree)
    (hfuel : (Node.directory mode readable l).depth ≤ fuel)
    (hnc : NoCollision blake3 ((Node.directory mode readable l).allBytes blake3 w o [])
      ((Node.directory mode readable l).allBytes blake3 w o [])) :
    Faithful blake3 w o r fuel (.directory mode readable l) ↔
      CanTell w o (.directory mode readable l) := by
  constructor
  · rintro ⟨snap, hsnap, htells, -⟩
    obtain ⟨rfl, hwithin, -⟩ := capture_ok hw hfollow htree hfuel hsnap
    refine ⟨rfl, hwithin, fun {q mode' target} hlink => ?_⟩
    obtain ⟨qs, hwalk, -, hmem⟩ := exists_walk hw hpacks hr hfollow htree hfuel hnc hsnap
    obtain ⟨vs, hvs, -, -, hall⟩ := htells.walk
    obtain rfl := hwalk.unique hvs
    have hq : q ≠ [] := by
      rintro rfl
      exact absurd (Includes.nil_iff.mp hlink) (by simp)
    obtain ⟨te, hin, hdescribes⟩ := hall q _ ⟨hq, hlink⟩
    obtain ⟨⟨q', m⟩, hqm, heq⟩ := List.mem_map.mp hin
    obtain ⟨htext, hte⟩ := Prod.mk.inj heq
    obtain ⟨hq', hm⟩ := (hmem q' m).mp hqm
    obtain rfl : q' = q := text_injective hq' hq (hm.isTextName htree) (hlink.isTextName htree) htext
    have hnode := (hm.lookup htree.distinct).symm.trans (hlink.lookup htree.distinct)
    obtain rfl := Option.some.inj hnode
    have hhash : blake3 (w.text target) = blake3 target := by
      rw [← hdescribes.2.2.2, ← hte, entry]
    exact hnc _ ⟨q', _, hlink, Set.mem_insert _ _⟩ _
      ⟨q', _, hlink, Set.mem_insert_of_mem _ (Set.mem_singleton _)⟩ hhash
  · rintro ⟨hreadable, hwithin, htargets⟩
    obtain rfl : readable = true := hreadable
    have hout := capture_outcome blake3 hw hfollow htree.distinct hfuel
    dsimp only at hout
    rw [if_neg (by rw [hwithin]; exact Bool.false_ne_true), if_pos rfl] at hout
    obtain ⟨snap, hsnap, hshows⟩ := hout
    obtain ⟨qs, hwalk, hnodup, hmem⟩ := exists_walk hw hpacks hr hfollow htree hfuel hnc hsnap
    refine ⟨snap, hsnap, ⟨⟨_, hwalk, ?_, ?_, ?_⟩, capture_closed hsnap⟩, ?_⟩
    · have hkeys : (qs.map (shown blake3 w o [])).map Prod.fst = (qs.map Prod.fst).map Path.text := by
        rw [List.map_map, List.map_map]
        rfl
      rw [hkeys]
      refine List.Nodup.map_on ?_ hnodup
      intro q hq q' hq' heq
      obtain ⟨⟨q, m⟩, hqm, rfl⟩ := List.mem_map.mp hq
      obtain ⟨⟨q', m'⟩, hqm', rfl⟩ := List.mem_map.mp hq'
      obtain ⟨hne, hm⟩ := (hmem q m).mp hqm
      obtain ⟨hne', hm'⟩ := (hmem q' m').mp hqm'
      exact text_injective hne hne' (hm.isTextName htree) (hm'.isTextName htree) heq
    · intro v hv
      obtain ⟨⟨q, m⟩, hqm, rfl⟩ := List.mem_map.mp hv
      have hleft := (hmem q m).mp hqm
      refine ⟨q, m, hleft, rfl, ?_, describes_entry ?_⟩
      · obtain ⟨c, hc⟩ := Option.ne_none_iff_exists'.mp
          (mt List.getLast?_eq_none_iff.mp hleft.1)
        simp only [shown, entry_name, hc, Option.getD_some]
      · rintro mode' target rfl
        exact htargets hleft.2
    · intro q m hleft
      refine ⟨_, List.mem_map.mpr ⟨(q, m), (hmem q m).mpr hleft, rfl⟩, describes_entry ?_⟩
      rintro mode' target rfl
      exact htargets hleft.2
    · intro root' htree' hsame hfuel' snap' hsnap'
      obtain ⟨l', rfl⟩ := hsame.directory
      obtain ⟨-, -, hhash⟩ := capture_ok hw hfollow htree' hfuel' hsnap'
      rw [hhash, hshows.rootHash]
      exact treeHash_of_filtered htree'.distinct htree.distinct
        (filtered_of_same hsame.symm htree'.distinct htree.distinct)

/-- **The roots of two captures** that can tell are equal if and only if the same is left. -/
theorem roots_iff (hw : Lawful w) (hpacks : Packs w.serializeTree) {o' : SnapshotOptions}
    (hfollow : o.followSymlinks = false) (hfollow' : o'.followSymlinks = false)
    {mode mode' : UInt32} {readable readable' : Bool} {l l' : List (String × Node)} {fuel : ℕ}
    (htree : (Node.directory mode readable l).IsTree)
    (htree' : (Node.directory mode' readable' l').IsTree)
    (hfuel : (Node.directory mode readable l).depth ≤ fuel)
    (hfuel' : (Node.directory mode' readable' l').depth ≤ fuel)
    (hnc : NoCollision blake3 ((Node.directory mode readable l).allBytes blake3 w o [])
      ((Node.directory mode' readable' l').allBytes blake3 w o' []))
    (htell : CanTell w o (.directory mode readable l))
    (htell' : CanTell w o' (.directory mode' readable' l')) {snap snap' : Snapshot}
    (hsnap : capture blake3 w o (Node.directory mode readable l).fileSystem fuel = some (.ok snap))
    (hsnap' : capture blake3 w o' (Node.directory mode' readable' l').fileSystem fuel =
      some (.ok snap')) :
    snap.rootHash = snap'.rootHash ↔
      filtered w o [] (.directory mode readable l) =
        filtered w o' [] (.directory mode' readable' l') := by
  obtain ⟨-, -, hhash⟩ := capture_ok hw hfollow htree hfuel hsnap
  obtain ⟨-, -, hhash'⟩ := capture_ok hw hfollow' htree' hfuel' hsnap'
  rw [hhash, hhash']
  exact ⟨filtered_of_treeHash hpacks htree.sized htree'.sized hnc htell.targets htell'.targets,
    treeHash_of_filtered htree.distinct htree'.distinct⟩

/-- A walker and a reader of the Go or of the Rust client. -/
def IsClient (w : Walker) (r : TreeReader) : Prop :=
  (w = Go.walker ∧ r = Go.treeReader) ∨ ∃ glob, w = Rust.walker glob ∧ r = Rust.treeReader

theorem IsClient.laws (h : IsClient w r) :
    Lawful w ∧ Packs w.serializeTree ∧ ReadsPaths r := by
  rcases h with ⟨rfl, rfl⟩ | ⟨glob, rfl, rfl⟩
  · exact ⟨Go.walker_lawful, Go.packs, readsPaths_go⟩
  · exact ⟨Rust.walker_lawful glob, Rust.packs, readsPaths_rust⟩

end Node

open Node

/-- **Two captures are faithful, and their roots tell what is left of the two trees,** if and only
if both can tell. -/
theorem capture_fidelity {blake3 : Bytes → Hash} {w : Walker} {r : TreeReader}
    (hclient : IsClient w r) {o o' : SnapshotOptions} (hfollow : o.followSymlinks = false)
    (hfollow' : o'.followSymlinks = false) {mode mode' : UInt32} {readable readable' : Bool}
    {l l' : List (String × Node)} {fuel : ℕ} (htree : (Node.directory mode readable l).IsTree)
    (htree' : (Node.directory mode' readable' l').IsTree)
    (hfuel : (Node.directory mode readable l).depth ≤ fuel)
    (hfuel' : (Node.directory mode' readable' l').depth ≤ fuel)
    (hnc : NoCollision blake3
      ((Node.directory mode readable l).allBytes blake3 w o [] ∪
        (Node.directory mode' readable' l').allBytes blake3 w o' [])
      ((Node.directory mode readable l).allBytes blake3 w o [] ∪
        (Node.directory mode' readable' l').allBytes blake3 w o' [])) :
    (Faithful blake3 w o r fuel (.directory mode readable l) ∧
      Faithful blake3 w o' r fuel (.directory mode' readable' l') ∧
      ∀ snap snap',
        capture blake3 w o (Node.directory mode readable l).fileSystem fuel = some (.ok snap) →
        capture blake3 w o' (Node.directory mode' readable' l').fileSystem fuel =
          some (.ok snap') →
        (snap.rootHash = snap'.rootHash ↔
          filtered w o [] (.directory mode readable l) =
            filtered w o' [] (.directory mode' readable' l'))) ↔
    CanTell w o (.directory mode readable l) ∧ CanTell w o' (.directory mode' readable' l') := by
  obtain ⟨hw, hpacks, hr⟩ := hclient.laws
  rw [faithful_iff hw hpacks hr hfollow htree hfuel
      (hnc.mono Set.subset_union_left Set.subset_union_left),
    faithful_iff hw hpacks hr hfollow' htree' hfuel'
      (hnc.mono Set.subset_union_right Set.subset_union_right)]
  constructor
  · exact fun h => ⟨h.1, h.2.1⟩
  · intro h
    exact ⟨h.1, h.2, fun snap snap' hsnap hsnap' => roots_iff hw hpacks hfollow hfollow' htree htree'
      hfuel hfuel' (hnc.mono Set.subset_union_left Set.subset_union_right) h.1 h.2 hsnap hsnap'⟩

/-! ### Two small trees -/

namespace Node

variable {blake3 : Bytes → Hash} {w : Walker} {o : SnapshotOptions}

/-- A directory of one file or link is a tree. -/
theorem isTree_leaf {mode : UInt32} {readable : Bool} {e : String × Node}
    (hleaf : e.2.isDir = false) (hname : IsFileName (utf8Bytes e.1))
    (hlen : (utf8Bytes e.1).length < 2 ^ 32) : (Node.directory mode readable [e]).IsTree where
  distinct := by
    rw [Distinct, DistinctAll, DistinctAll]
    refine ⟨by simp, ?_, trivial⟩
    cases hnode : e.2 with
    | directory => rw [hnode] at hleaf; cases hleaf
    | file => trivial
    | symlink => trivial
  sized := by
    rw [Sized, SizedAll, SizedAll]
    refine ⟨by simp, hlen, ?_, trivial⟩
    cases hnode : e.2 with
    | directory => rw [hnode] at hleaf; cases hleaf
    | file => trivial
    | symlink => trivial
  named := by
    intro q m h c hc
    cases q with
    | nil => cases hc
    | cons d q =>
        rw [Node.lookup, List.find?_singleton] at h
        split_ifs at h with hd
        cases q with
        | nil =>
            rw [List.mem_singleton.mp hc, ← of_decide_eq_true hd]
            exact hname
        | cons d' q =>
            cases hnode : e.2 with
            | directory => rw [hnode] at hleaf; cases hleaf
            | file => simp [hnode, Node.lookup] at h
            | symlink => simp [hnode, Node.lookup] at h

/-- The byte strings in a directory of one file or link. -/
theorem allBytes_leaf {mode : UInt32} {readable : Bool} {e : String × Node}
    (hleaf : e.2.isDir = false) :
    (Node.directory mode readable [e]).allBytes blake3 w o [] ⊆
      {w.serializeTree (sortByName (treeEntries blake3 w o [] [e]))} ∪
        e.2.ownBytes blake3 w o [utf8Bytes e.1] := by
  rintro bs ⟨q, m, hm, hbs⟩
  cases q with
  | nil =>
      rw [Includes.nil_iff.mp hm] at hbs
      exact Or.inl hbs
  | cons c q =>
      obtain ⟨d, hd, rfl, -, hin⟩ := Includes.cons_iff.mp hm
      obtain rfl := List.mem_singleton.mp hd
      cases q with
      | nil =>
          rw [Includes.nil_iff.mp hin] at hbs
          exact Or.inr hbs
      | cons c' q =>
          exact absurd ⟨List.cons_ne_nil _ _, hin⟩ (not_leftBelow_leaf hleaf (c' :: q) m)

/-- Byte strings with different first bytes do not collide. -/
theorem noCollision_heads {s : Set Bytes} (bss : List Bytes) (hs : ∀ bs ∈ s, bs ∈ bss)
    (h : ∀ a ∈ bss, ∀ b ∈ bss, a.headD 0 = b.headD 0 → a = b) : NoCollision headDigest s s := by
  intro a ha b hb heq
  have hhead : a.headD 0 = b.headD 0 := congrArg List.Vector.head heq
  exact h a (hs a ha) b (hs b hb) hhead

end Node

/-- A directory without entries is a tree. -/
theorem Node.isTree_empty (mode : UInt32) : (Node.directory mode true []).IsTree where
  distinct := by
    rw [Distinct, DistinctAll]
    exact ⟨List.nodup_nil, trivial⟩
  sized := by
    rw [Sized, SizedAll]
    exact ⟨by decide, trivial⟩
  named := by
    intro q m h c hc
    cases q with
    | nil => cases hc
    | cons d q => cases h

/-- A small file. -/
def oneByte : String × Node := ("a", .file 0o644 true [1])

/-- The theorem holds of a file and of an empty directory: both captures are faithful. -/
theorem capture_fidelity_oneByte :
    Faithful headDigest Go.walker .default Go.treeReader 1 (.directory 0o755 true [oneByte]) ∧
      Faithful headDigest Go.walker .default Go.treeReader 1 (.directory 0o755 true []) := by
  have hname : IsFileName (utf8Bytes oneByte.1) := ⟨by decide, by decide, by decide, by decide⟩
  have hnc : NoCollision headDigest
      ((Node.directory 0o755 true [oneByte]).allBytes headDigest Go.walker .default [] ∪
        (Node.directory 0o755 true []).allBytes headDigest Go.walker .default [])
      ((Node.directory 0o755 true [oneByte]).allBytes headDigest Go.walker .default [] ∪
        (Node.directory 0o755 true []).allBytes headDigest Go.walker .default []) := by
    refine noCollision_heads [Go.serializeTree (sortByName (treeEntries headDigest Go.walker
      .default [] [oneByte])), [1], Go.serializeTree []] ?_ ?_
    · rintro bs (hbs | ⟨q, m, hm, hbs⟩)
      · rcases allBytes_leaf rfl hbs with hbs | hbs
        · rw [hbs]
          exact List.mem_cons_self
        · rw [hbs]
          exact List.mem_cons_of_mem _ List.mem_cons_self
      · cases q with
        | nil =>
            rw [Includes.nil_iff.mp hm] at hbs
            rw [hbs]
            simp [treeEntries, sortByName, Go.walker]
        | cons c q =>
            obtain ⟨d, hd, -⟩ := Includes.cons_iff.mp hm
            cases hd
    · decide
  have hdepth : (Node.directory 0o755 true [oneByte]).depth ≤ 1 := by decide
  have hdepth' : (Node.directory 0o755 true []).depth ≤ 1 := by decide
  have hboth := (capture_fidelity (Or.inl ⟨rfl, rfl⟩) rfl rfl (isTree_leaf rfl hname (by decide))
    (isTree_empty 0o755) hdepth hdepth' hnc).mpr
    ⟨⟨rfl, by decide, fun _ => rfl⟩, ⟨rfl, by decide, fun _ => rfl⟩⟩
  exact ⟨hboth.1, hboth.2.1⟩

/-- A link whose target is not text. -/
def rawLink : String × Node := ("l", .symlink 0o777 [0xff])

/-- **A target is replaced**: the snapshot of the Rust client does not tell the target of the
link. -/
theorem target_is_replaced :
    ¬Faithful headDigest (Rust.walker fun _ _ => false) .default Rust.treeReader 1
      (.directory 0o755 true [rawLink]) := by
  have hname : IsFileName (utf8Bytes rawLink.1) :=
    ⟨by decide, by decide, by decide, by decide⟩
  have htree : (Node.directory 0o755 true [rawLink]).IsTree := isTree_leaf rfl hname (by decide)
  have hnc : NoCollision headDigest
      ((Node.directory 0o755 true [rawLink]).allBytes headDigest (Rust.walker fun _ _ => false)
        .default [])
      ((Node.directory 0o755 true [rawLink]).allBytes headDigest (Rust.walker fun _ _ => false)
        .default []) := by
    refine noCollision_heads [Rust.serializeTree (sortByName (treeEntries headDigest
      (Rust.walker fun _ _ => false) .default [] [rawLink])), toStringLossy [0xff], [0xff]] ?_ ?_
    · intro bs hbs
      rcases allBytes_leaf rfl hbs with hbs | hbs
      · rw [hbs]
        exact List.mem_cons_self
      · rcases hbs with hbs | hbs
        · rw [hbs]
          exact List.mem_cons_of_mem _ List.mem_cons_self
        · rw [hbs]
          simp
    · decide
  obtain ⟨hw, hpacks, hr⟩ :=
    IsClient.laws (w := Rust.walker fun _ _ => false) (Or.inr ⟨_, rfl, rfl⟩)
  rw [faithful_iff hw hpacks hr rfl htree (by decide) hnc]
  intro hcan
  have hlink : Includes (Rust.walker fun _ _ => false) .default []
      (.directory 0o755 true [rawLink]) [utf8Bytes "l"] (.symlink 0o777 [0xff]) :=
    .inside (e := rawLink) List.mem_cons_self ⟨by decide, rfl⟩ .here
  exact absurd (hcan.targets hlink) (by decide)

end Cxdb
