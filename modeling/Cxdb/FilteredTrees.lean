import Cxdb.SnapshotDiffs

/-!
# What Is Left of a Directory Tree

A capture leaves out what is excluded, what cannot be read and files that are too large, with all
that is below. What is left is told by the paths that lead to it and by what is kept of a node.
The hash of a directory is one of what is left of it: it does not depend on the order in which
directories are read, and as far as the hash tells bytes apart, and targets of links are text, it
tells what is left.

## Main results

* `treeHash_of_filtered`: the same is left, the hash is the same.
* `filtered_of_treeHash`: the hash is the same, the same is left.
* `filtered_of_same`: the order of the entries is of no account.
-/

open ByteFormat

namespace Cxdb

namespace Node

variable {blake3 : Bytes → Hash} {w : Walker} {o o' : SnapshotOptions}

/-! ### What is left -/

/-- An entry that is not excluded, and can be captured. -/
structure Admits (w : Walker) (o : SnapshotOptions) (p : Path) (e : String × Node) : Prop where
  excludes : w.excludes o (Path.text (p ++ [utf8Bytes e.1])) e.2.isDir = false
  captured : e.2.captured o = true

/-- A node that is left below a node at `p`, under a path from there. -/
inductive Includes (w : Walker) (o : SnapshotOptions) : Path → Node → Path → Node → Prop where
  | here {p : Path} {n : Node} : Includes w o p n [] n
  | inside {p q : Path} {mode : UInt32} {readable : Bool} {entries : List (String × Node)}
      {e : String × Node} {n : Node} : e ∈ entries → Admits w o p e →
      Includes w o (p ++ [utf8Bytes e.1]) e.2 q n →
      Includes w o p (.directory mode readable entries) (utf8Bytes e.1 :: q) n

/-- What is kept of a node, without what is below it. -/
inductive Kept where
  | file (mode : UInt32) (content : Bytes)
  | directory (mode : UInt32)
  | symlink (mode : UInt32) (target : Bytes)

def kept (w : Walker) : Node → Kept
  | .file mode _ content => .file (w.permissions mode) content
  | .directory mode _ _ => .directory (w.permissions mode)
  | .symlink mode target => .symlink (w.permissions mode) target

/-- **What is left below a node**: what is kept under each path. -/
def filtered (w : Walker) (o : SnapshotOptions) (p : Path) (n : Node) : Set (Path × Kept) :=
  {x | x.1 ≠ [] ∧ ∃ m, Includes w o p n x.1 m ∧ x.2 = m.kept w}

theorem Includes.nil_iff {p : Path} {n m : Node} : Includes w o p n [] m ↔ m = n := by
  constructor
  · intro h
    cases h
    rfl
  · rintro rfl
    exact .here

theorem Includes.cons_iff {p q : Path} {mode : UInt32} {readable : Bool}
    {entries : List (String × Node)} {c : Bytes} {n : Node} :
    Includes w o p (.directory mode readable entries) (c :: q) n ↔
      ∃ e ∈ entries, utf8Bytes e.1 = c ∧ Admits w o p e ∧
        Includes w o (p ++ [utf8Bytes e.1]) e.2 q n := by
  constructor
  · intro h
    cases h with
    | inside he hadmits hbelow => exact ⟨_, he, rfl, hadmits, hbelow⟩
  · rintro ⟨e, he, rfl, hadmits, hbelow⟩
    exact .inside he hadmits hbelow

/-- What is left of a directory: its entries, and what is left below them. -/
theorem mem_filtered_iff {p q : Path} {mode : UInt32} {readable : Bool}
    {entries : List (String × Node)} {c : Bytes} {k : Kept} :
    (c :: q, k) ∈ filtered w o p (.directory mode readable entries) ↔
      ∃ e ∈ entries, utf8Bytes e.1 = c ∧ Admits w o p e ∧
        (q = [] ∧ k = e.2.kept w ∨ (q, k) ∈ filtered w o (p ++ [utf8Bytes e.1]) e.2) := by
  simp only [filtered, Set.mem_ofPred_eq, ne_eq, reduceCtorEq, not_false_eq_true, true_and,
    Includes.cons_iff]
  constructor
  · rintro ⟨m, ⟨e, he, hc, hadmits, hbelow⟩, rfl⟩
    refine ⟨e, he, hc, hadmits, ?_⟩
    by_cases hq : q = []
    · subst hq
      rw [Includes.nil_iff.mp hbelow]
      exact Or.inl ⟨rfl, rfl⟩
    · exact Or.inr ⟨hq, m, hbelow, rfl⟩
  · rintro ⟨e, he, hc, hadmits, ⟨rfl, rfl⟩ | ⟨-, m, hbelow, rfl⟩⟩
    · exact ⟨e.2, ⟨e, he, hc, hadmits, .here⟩, rfl⟩
    · exact ⟨m, ⟨e, he, hc, hadmits, hbelow⟩, rfl⟩

/-- Nothing is below a file or a link. -/
theorem filtered_leaf {p : Path} {n : Node} (h : n.isDir = false) : filtered w o p n = ∅ := by
  ext ⟨q, k⟩
  simp only [filtered, Set.mem_ofPred_eq, Set.mem_empty_iff_false, iff_false]
  rintro ⟨hq, m, hm, -⟩
  cases hm with
  | here => exact hq rfl
  | inside => cases h

theorem filtered_eq_of_pieces {p : Path} {mode mode' : UInt32} {readable readable' : Bool}
    {l l' : List (String × Node)}
    (h : ∀ c q k, (c :: q, k) ∈ filtered w o p (.directory mode readable l) ↔
      (c :: q, k) ∈ filtered w o' p (.directory mode' readable' l')) :
    filtered w o p (.directory mode readable l) =
      filtered w o' p (.directory mode' readable' l') := by
  ext ⟨q, k⟩
  cases q with
  | nil => exact iff_of_false (fun h => h.1 rfl) (fun h => h.1 rfl)
  | cons c q => exact h c q k

/-! ### The hash of what is left -/

/-- Directories of which the same is left have entries under the same names, of which the same is
left. -/
theorem matched {p : Path} {mode mode' : UInt32} {readable readable' : Bool}
    {l l' : List (String × Node)} (hnd : (l.map Prod.fst).Nodup) (hnd' : (l'.map Prod.fst).Nodup)
    (h : filtered w o p (.directory mode readable l) =
      filtered w o' p (.directory mode' readable' l')) {e : String × Node} (he : e ∈ l)
    (ha : Admits w o p e) :
    ∃ e' ∈ l', e'.1 = e.1 ∧ Admits w o' p e' ∧ e.2.kept w = e'.2.kept w ∧
      filtered w o (p ++ [utf8Bytes e.1]) e.2 = filtered w o' (p ++ [utf8Bytes e.1]) e'.2 := by
  have hself : ([utf8Bytes e.1], e.2.kept w) ∈ filtered w o p (.directory mode readable l) :=
    mem_filtered_iff.mpr ⟨e, he, rfl, ha, Or.inl ⟨rfl, rfl⟩⟩
  rw [h] at hself
  obtain ⟨e', he', hname, ha', ⟨-, hkept⟩ | hbelow⟩ := mem_filtered_iff.mp hself
  · have hsame : e'.1 = e.1 := utf8Bytes_injective hname
    refine ⟨e', he', hsame, ha', hkept, ?_⟩
    ext ⟨q, k⟩
    constructor
    · intro hin
      have hup : (utf8Bytes e.1 :: q, k) ∈ filtered w o p (.directory mode readable l) :=
        mem_filtered_iff.mpr ⟨e, he, rfl, ha, Or.inr hin⟩
      rw [h] at hup
      obtain ⟨d, hd, hdname, -, ⟨rfl, -⟩ | hdown⟩ := mem_filtered_iff.mp hup
      · exact absurd rfl hin.1
      · obtain rfl := List.inj_on_of_nodup_map hnd' hd he' ((utf8Bytes_injective hdname).trans
          hsame.symm)
        rwa [hdname] at hdown
    · intro hin
      have hup : (utf8Bytes e.1 :: q, k) ∈
          filtered w o' p (.directory mode' readable' l') := by
        refine mem_filtered_iff.mpr ⟨e', he', hname, ha', Or.inr ?_⟩
        rwa [hname]
      rw [← h] at hup
      obtain ⟨d, hd, hdname, -, ⟨rfl, -⟩ | hdown⟩ := mem_filtered_iff.mp hup
      · exact absurd rfl hin.1
      · obtain rfl := List.inj_on_of_nodup_map hnd hd he (utf8Bytes_injective hdname)
        exact hdown
  · exact absurd rfl hbelow.1

/-- The entries of a directory with distinct names are distinct. -/
theorem nodup_treeEntries {p : Path} {l : List (String × Node)} (hnd : (l.map Prod.fst).Nodup) :
    (treeEntries blake3 w o p l).Nodup := by
  induction l with
  | nil => exact List.nodup_nil
  | cons e l ih =>
      rw [List.map_cons, List.nodup_cons] at hnd
      rw [treeEntries]
      split_ifs
      · exact ih hnd.2
      · refine List.nodup_cons.mpr ⟨fun hmem => ?_, ih hnd.2⟩
        obtain ⟨d, hd, -, -, heq⟩ := mem_treeEntries.mp hmem
        have hname := congrArg TreeEntry.name heq
        rw [entry_name, entry_name] at hname
        exact hnd.1 (utf8Bytes_injective hname ▸ List.mem_map_of_mem hd)

/-- Tree objects with the same entries, under distinct names, are the same. -/
theorem sortByName_eq {p : Path} {l l' : List (String × Node)} (hnd : (l.map Prod.fst).Nodup)
    (hnd' : (l'.map Prod.fst).Nodup)
    (h : ∀ te, te ∈ treeEntries blake3 w o p l ↔ te ∈ treeEntries blake3 w o' p l') :
    sortByName (treeEntries blake3 w o p l) = sortByName (treeEntries blake3 w o' p l') := by
  refine sortByName_perm
    ((List.perm_ext_iff_of_nodup (nodup_treeEntries hnd) (nodup_treeEntries hnd')).mpr h) ?_
  intro a ha b hb hab
  obtain ⟨d, hd, -, -, rfl⟩ := mem_treeEntries.mp ha
  obtain ⟨d', hd', -, -, rfl⟩ := mem_treeEntries.mp hb
  rw [entry_name, entry_name] at hab
  rw [List.inj_on_of_nodup_map hnd hd hd' (utf8Bytes_injective hab)]

/-- The tree object of a directory is one of what is left, if the entries of its nodes are. -/
theorem sortByName_of_filtered {p : Path} {mode mode' : UInt32} {readable readable' : Bool}
    {l l' : List (String × Node)} (hnd : (l.map Prod.fst).Nodup) (hnd' : (l'.map Prod.fst).Nodup)
    (hd' : DistinctAll l')
    (hl : ∀ e ∈ l, ∀ p n' name, n'.Distinct → e.2.kept w = n'.kept w →
      filtered w o p e.2 = filtered w o' p n' →
      e.2.entry blake3 w o p name = n'.entry blake3 w o' p name)
    (h : filtered w o p (.directory mode readable l) =
      filtered w o' p (.directory mode' readable' l')) :
    sortByName (treeEntries blake3 w o p l) = sortByName (treeEntries blake3 w o' p l') := by
  refine sortByName_eq hnd hnd' fun te => ?_
  constructor
  · intro hte
    obtain ⟨e, he, hexcl, hc, rfl⟩ := mem_treeEntries.mp hte
    obtain ⟨e', he', hname, ha', hkept, hfiltered⟩ := matched hnd hnd' h he ⟨hexcl, hc⟩
    refine mem_treeEntries.mpr ⟨e', he', ha'.excludes, ha'.captured, ?_⟩
    rw [hname]
    exact hl e he _ _ _ (distinct_of_mem hd' he') hkept hfiltered
  · intro hte
    obtain ⟨e', he', hexcl, hc, rfl⟩ := mem_treeEntries.mp hte
    obtain ⟨e, he, hname, ha, hkept, hfiltered⟩ := matched hnd' hnd h.symm he' ⟨hexcl, hc⟩
    refine mem_treeEntries.mpr ⟨e, he, ha.excludes, ha.captured, ?_⟩
    rw [hname]
    exact (hl e he _ _ _ (distinct_of_mem hd' he') hkept.symm hfiltered.symm).symm

/-- **The entry of a node** is one of what is kept of it and left below it. -/
theorem entry_of_filtered {n n' : Node} {p : Path} {name : Bytes} (hd : n.Distinct)
    (hd' : n'.Distinct) (hkept : n.kept w = n'.kept w)
    (h : filtered w o p n = filtered w o' p n') :
    n.entry blake3 w o p name = n'.entry blake3 w o' p name := by
  induction n using induction generalizing n' p name with
  | file mode readable content =>
      cases n' with
      | file mode' readable' content' =>
          obtain ⟨hmode, rfl⟩ := Kept.file.inj hkept
          rw [entry, entry, hmode]
      | directory => cases hkept
      | symlink => cases hkept
  | symlink mode target =>
      cases n' with
      | file => cases hkept
      | directory => cases hkept
      | symlink mode' target' =>
          obtain ⟨hmode, rfl⟩ := Kept.symlink.inj hkept
          rw [entry, entry, hmode]
  | directory mode readable l ih =>
      cases n' with
      | file => cases hkept
      | symlink => cases hkept
      | directory mode' readable' l' =>
          rw [Distinct] at hd hd'
          have hl := fun e he p n' name => @ih e he n' p name (distinct_of_mem hd.2 he)
          rw [entry, entry, Kept.directory.inj hkept, treeHash, treeHash,
            sortByName_of_filtered hd.1 hd'.1 hd'.2 hl h]

/-- **The same is left, the hash is the same.** -/
theorem treeHash_of_filtered {p : Path} {mode mode' : UInt32} {readable readable' : Bool}
    {l l' : List (String × Node)} (hd : (Node.directory mode readable l).Distinct)
    (hd' : (Node.directory mode' readable' l').Distinct)
    (h : filtered w o p (.directory mode readable l) =
      filtered w o' p (.directory mode' readable' l')) :
    treeHash blake3 w (treeEntries blake3 w o p l) =
      treeHash blake3 w (treeEntries blake3 w o' p l') := by
  rw [Distinct] at hd hd'
  rw [treeHash, treeHash, sortByName_of_filtered hd.1 hd'.1 hd'.2
    (fun e he _ _ _ hn' hkept h => entry_of_filtered (distinct_of_mem hd.2 he) hn' hkept h) h]

/-! ### The order of the entries -/

/-- A node without what is below it. -/
def bare : Node → Node
  | .directory mode readable _ => .directory mode readable []
  | n => n

/-- Two nodes with the same below them, whatever the order of the entries. -/
def Same (n n' : Node) : Prop := ∀ q, (n.lookup q).map bare = (n'.lookup q).map bare

theorem Same.symm {n n' : Node} (h : n.Same n') : n'.Same n := fun q => (h q).symm

theorem Same.bare {n n' : Node} (h : n.Same n') : n.bare = n'.bare := by
  have hself := h []
  rw [lookup, lookup, Option.map_some, Option.map_some] at hself
  exact Option.some.inj hself

theorem isDir_bare (n : Node) : n.bare.isDir = n.isDir := by cases n <;> rfl

theorem captured_bare (n : Node) : n.bare.captured o = n.captured o := by cases n <;> rfl

theorem kept_bare (n : Node) : n.bare.kept w = n.kept w := by cases n <;> rfl

theorem lookup_inside {mode : UInt32} {readable : Bool} {l : List (String × Node)}
    (hnd : (l.map Prod.fst).Nodup) {e : String × Node} (he : e ∈ l) (q : Path) :
    (Node.directory mode readable l).lookup (utf8Bytes e.1 :: q) = e.2.lookup q := by
  have hentry : (Node.directory mode readable l).lookup ([] ++ [utf8Bytes e.1]) = some e.2 :=
    lookup_entry rfl hnd he
  rw [← List.singleton_append, lookup_append, ← List.nil_append [utf8Bytes e.1], hentry,
    Option.bind_some]

/-- Nodes with the same below them have entries with the same below them. -/
theorem Same.entry {mode mode' : UInt32} {readable readable' : Bool} {l l' : List (String × Node)}
    (h : (Node.directory mode readable l).Same (.directory mode' readable' l'))
    (hnd : (l.map Prod.fst).Nodup) (hnd' : (l'.map Prod.fst).Nodup) {e : String × Node}
    (he : e ∈ l) : ∃ e' ∈ l', e'.1 = e.1 ∧ e.2.Same e'.2 := by
  have hentry := h [utf8Bytes e.1]
  rw [lookup_inside hnd he, lookup, Option.map_some] at hentry
  cases hfind : l'.find? fun d => utf8Bytes d.1 = utf8Bytes e.1 with
  | none =>
      rw [lookup, hfind] at hentry
      cases hentry
  | some e' =>
      have he' := List.mem_of_find?_eq_some hfind
      have hname : utf8Bytes e'.1 = utf8Bytes e.1 := by simpa using List.find?_some hfind
      refine ⟨e', he', utf8Bytes_injective hname, fun q => ?_⟩
      have hbelow := h (utf8Bytes e.1 :: q)
      rwa [lookup_inside hnd he, ← hname, lookup_inside hnd' he'] at hbelow

theorem Same.includes {p q : Path} {n n' m : Node} (h : Includes w o p n q m) (hsame : n.Same n')
    (hd : n.Distinct) (hd' : n'.Distinct) :
    ∃ m', Includes w o p n' q m' ∧ m.kept w = m'.kept w := by
  induction h generalizing n' with
  | @here p n =>
      refine ⟨n', .here, ?_⟩
      rw [← kept_bare, hsame.bare, kept_bare]
  | @inside p q mode readable l e m he ha _ ih =>
      cases n' with
      | file => exact absurd hsame.bare (by simp [Node.bare])
      | symlink => exact absurd hsame.bare (by simp [Node.bare])
      | directory mode' readable' l' =>
          rw [Distinct] at hd hd'
          obtain ⟨e', he', hname, hentry⟩ := hsame.entry hd.1 hd'.1 he
          obtain ⟨m', hm', hkept⟩ := ih hentry (distinct_of_mem hd.2 he) (distinct_of_mem hd'.2 he')
          have ha' : Admits w o p e' := by
            refine ⟨?_, ?_⟩
            · rw [hname, ← isDir_bare, ← hentry.bare, isDir_bare]
              exact ha.excludes
            · rw [← captured_bare, ← hentry.bare, captured_bare]
              exact ha.captured
          refine ⟨m', ?_, hkept⟩
          rw [← hname] at hm' ⊢
          exact .inside he' ha' hm'

/-- **The order of the entries** is of no account for what is left. -/
theorem filtered_of_same {p : Path} {n n' : Node} (h : n.Same n') (hd : n.Distinct)
    (hd' : n'.Distinct) : filtered w o p n = filtered w o p n' := by
  ext ⟨q, k⟩
  constructor
  · rintro ⟨hq, m, hm, rfl⟩
    obtain ⟨m', hm', hkept⟩ := h.includes hm hd hd'
    exact ⟨hq, m', hm', hkept⟩
  · rintro ⟨hq, m, hm, rfl⟩
    obtain ⟨m', hm', hkept⟩ := h.symm.includes hm hd' hd
    exact ⟨hq, m', hm', hkept⟩

/-! ### What the hash tells -/

/-- The byte strings that there are in a node: its content, its target, also as text, or its tree
object. -/
def ownBytes (blake3 : Bytes → Hash) (w : Walker) (o : SnapshotOptions) (p : Path) :
    Node → Set Bytes
  | .file _ _ content => {content}
  | .directory _ _ entries => {w.serializeTree (sortByName (treeEntries blake3 w o p entries))}
  | .symlink _ target => {w.text target, target}

/-- The same for all that is left of a tree. -/
def allBytes (blake3 : Bytes → Hash) (w : Walker) (o : SnapshotOptions) (p : Path) (n : Node) :
    Set Bytes :=
  {bs | ∃ q m, Includes w o p n q m ∧ bs ∈ m.ownBytes blake3 w o (p ++ q)}

theorem ownBytes_subset (p : Path) (n : Node) :
    n.ownBytes blake3 w o p ⊆ n.allBytes blake3 w o p := by
  intro bs hbs
  refine ⟨[], n, .here, ?_⟩
  rwa [List.append_nil]

theorem allBytes_inside {p : Path} {mode : UInt32} {readable : Bool} {l : List (String × Node)}
    {e : String × Node} (he : e ∈ l) (ha : Admits w o p e) :
    e.2.allBytes blake3 w o (p ++ [utf8Bytes e.1]) ⊆
      (Node.directory mode readable l).allBytes blake3 w o p := by
  rintro bs ⟨q, m, hm, hbs⟩
  refine ⟨utf8Bytes e.1 :: q, m, .inside he ha hm, ?_⟩
  rwa [List.append_assoc, List.singleton_append] at hbs

/-- The targets of the links that are left are text. -/
def KeepsTargets (w : Walker) (o : SnapshotOptions) (p : Path) (n : Node) : Prop :=
  ∀ {q mode target}, Includes w o p n q (.symlink mode target) → w.text target = target

theorem KeepsTargets.inside {p : Path} {mode : UInt32} {readable : Bool}
    {l : List (String × Node)} {e : String × Node}
    (h : KeepsTargets w o p (.directory mode readable l)) (he : e ∈ l) (ha : Admits w o p e) :
    KeepsTargets w o (p ++ [utf8Bytes e.1]) e.2 := fun hm => h (.inside he ha hm)

/-- An entry that is in another directory too is there the one of a node under the same name. -/
theorem paired {p : Path} {l l' : List (String × Node)}
    (h : ∀ te ∈ treeEntries blake3 w o p l, te ∈ treeEntries blake3 w o' p l')
    {e : String × Node} (he : e ∈ l) (ha : Admits w o p e) :
    ∃ e' ∈ l', e'.1 = e.1 ∧ Admits w o' p e' ∧
      e.2.entry blake3 w o (p ++ [utf8Bytes e.1]) (utf8Bytes e.1) =
        e'.2.entry blake3 w o' (p ++ [utf8Bytes e.1]) (utf8Bytes e.1) := by
  obtain ⟨e', he', hexcl, hc, heq⟩ :=
    mem_treeEntries.mp (h _ (mem_treeEntries.mpr ⟨e, he, ha.excludes, ha.captured, rfl⟩))
  have hname := congrArg TreeEntry.name heq
  rw [entry_name, entry_name] at hname
  have hsame : e'.1 = e.1 := (utf8Bytes_injective hname).symm
  rw [hsame] at heq
  exact ⟨e', he', hsame, ⟨hexcl, hc⟩, heq⟩

/-- The hash of a directory tells the entries, as far as it tells bytes apart. -/
theorem treeEntries_of_treeHash (hpacks : Packs w.serializeTree) {p : Path}
    {mode mode' : UInt32} {readable readable' : Bool} {l l' : List (String × Node)}
    (hsized : (Node.directory mode readable l).Sized)
    (hsized' : (Node.directory mode' readable' l').Sized)
    (hnc : NoCollision blake3 ((Node.directory mode readable l).allBytes blake3 w o p)
      ((Node.directory mode' readable' l').allBytes blake3 w o' p))
    (h : treeHash blake3 w (treeEntries blake3 w o p l) =
      treeHash blake3 w (treeEntries blake3 w o' p l')) (te : TreeEntry) :
    te ∈ treeEntries blake3 w o p l ↔ te ∈ treeEntries blake3 w o' p l' := by
  rw [Sized] at hsized hsized'
  have hlen : ∀ {o : SnapshotOptions} {l : List (String × Node)}, l.length < 2 ^ 32 →
      (sortByName (treeEntries blake3 w o p l)).length < 2 ^ 32 := by
    intro o l hl
    rw [sortByName, List.length_insertionSort]
    exact length_treeEntries_le.trans_lt hl
  have hnames : ∀ {o : SnapshotOptions} {l : List (String × Node)}, SizedAll l →
      ∀ te ∈ sortByName (treeEntries blake3 w o p l), te.name.length < 2 ^ 32 := by
    intro o l hl te hte
    obtain ⟨e, he, -, -, rfl⟩ := mem_treeEntries.mp (mem_sortByName.mp hte)
    rw [entry_name]
    exact (sizedAll_iff.mp hl e he).1
  have hbytes := hnc _ (ownBytes_subset p _ (Set.mem_singleton _)) _
    (ownBytes_subset p _ (Set.mem_singleton _)) h
  have hsame := hpacks (hlen hsized.1) (hlen hsized'.1) (hnames hsized.2) (hnames hsized'.2) hbytes
  rw [← mem_sortByName, hsame, mem_sortByName]

/-- What is left of a directory is told by its hash, if it is told by the entries of its nodes. -/
theorem filtered_of_entries {p : Path} {mode mode' : UInt32} {readable readable' : Bool}
    {l l' : List (String × Node)}
    (hl : ∀ e ∈ l, ∀ e' ∈ l', e'.1 = e.1 → Admits w o p e → Admits w o' p e' →
      e.2.entry blake3 w o (p ++ [utf8Bytes e.1]) (utf8Bytes e.1) =
        e'.2.entry blake3 w o' (p ++ [utf8Bytes e.1]) (utf8Bytes e.1) →
      e.2.kept w = e'.2.kept w ∧
        filtered w o (p ++ [utf8Bytes e.1]) e.2 = filtered w o' (p ++ [utf8Bytes e.1]) e'.2)
    (h : ∀ te, te ∈ treeEntries blake3 w o p l ↔ te ∈ treeEntries blake3 w o' p l') :
    filtered w o p (.directory mode readable l) =
      filtered w o' p (.directory mode' readable' l') := by
  refine filtered_eq_of_pieces fun c q k => ?_
  rw [mem_filtered_iff, mem_filtered_iff]
  constructor
  · rintro ⟨e, he, rfl, ha, hbelow⟩
    obtain ⟨e', he', hname, ha', hentry⟩ := paired (fun te => (h te).mp) he ha
    obtain ⟨hkept, hfiltered⟩ := hl e he e' he' hname ha ha' hentry
    rw [hkept, hfiltered] at hbelow
    exact ⟨e', he', congrArg utf8Bytes hname, ha', by rwa [hname]⟩
  · rintro ⟨e', he', rfl, ha', hbelow⟩
    obtain ⟨e, he, hname, ha, hentry⟩ := paired (fun te => (h te).mpr) he' ha'
    rw [← hname] at hentry hbelow
    obtain ⟨hkept, hfiltered⟩ := hl e he e' he' hname.symm ha ha' hentry.symm
    rw [← hkept, ← hfiltered] at hbelow
    exact ⟨e, he, congrArg utf8Bytes hname, ha, hbelow⟩

/-- The entry of a node tells what is kept of it and left below it. -/
def EntryTells (blake3 : Bytes → Hash) (w : Walker) (o o' : SnapshotOptions) (n : Node) : Prop :=
  ∀ (n' : Node) (p : Path) (name : Bytes), n.Sized → n'.Sized →
    NoCollision blake3 (n.allBytes blake3 w o p) (n'.allBytes blake3 w o' p) →
    KeepsTargets w o p n → KeepsTargets w o' p n' →
    n.entry blake3 w o p name = n'.entry blake3 w o' p name →
    n.kept w = n'.kept w ∧ filtered w o p n = filtered w o' p n'

/-- What is left of a directory is told by its hash, if the entries of its nodes tell. -/
theorem filtered_of_entryTells (hpacks : Packs w.serializeTree) {p : Path}
    {mode mode' : UInt32} {readable readable' : Bool} {l l' : List (String × Node)}
    (hl : ∀ e ∈ l, EntryTells blake3 w o o' e.2)
    (hsized : (Node.directory mode readable l).Sized)
    (hsized' : (Node.directory mode' readable' l').Sized)
    (hnc : NoCollision blake3 ((Node.directory mode readable l).allBytes blake3 w o p)
      ((Node.directory mode' readable' l').allBytes blake3 w o' p))
    (htext : KeepsTargets w o p (.directory mode readable l))
    (htext' : KeepsTargets w o' p (.directory mode' readable' l'))
    (h : treeHash blake3 w (treeEntries blake3 w o p l) =
      treeHash blake3 w (treeEntries blake3 w o' p l')) :
    filtered w o p (.directory mode readable l) =
      filtered w o' p (.directory mode' readable' l') := by
  refine filtered_of_entries ?_ (treeEntries_of_treeHash hpacks hsized hsized' hnc h)
  intro e he e' he' hname ha ha' hentry
  rw [Sized] at hsized hsized'
  have hinner : e'.2.allBytes blake3 w o' (p ++ [utf8Bytes e.1]) ⊆
      (Node.directory mode' readable' l').allBytes blake3 w o' p := by
    rw [← hname]
    exact allBytes_inside he' ha'
  have htargets : KeepsTargets w o' (p ++ [utf8Bytes e.1]) e'.2 := by
    rw [← hname]
    exact htext'.inside he' ha'
  exact hl e he _ _ _ (sizedAll_iff.mp hsized.2 e he).2 (sizedAll_iff.mp hsized'.2 e' he').2
    (hnc.mono (allBytes_inside he ha) hinner) (htext.inside he ha) htargets hentry

/-- **Every entry tells** what is kept of its node and left below it. -/
theorem entryTells (hpacks : Packs w.serializeTree) (n : Node) :
    EntryTells blake3 w o o' n := by
  induction n using induction with
  | file mode readable content =>
      intro n' p name _ _ hnc _ _ h
      cases n' with
      | file mode' readable' content' =>
          rw [entry, entry, TreeEntry.mk.injEq] at h
          obtain ⟨-, -, hmode, -, hhash⟩ := h
          have hcontent : content = content' := hnc _ (ownBytes_subset p _ (Set.mem_singleton _)) _
            (ownBytes_subset p _ (Set.mem_singleton _)) hhash
          rw [kept, kept, hmode, hcontent]
          exact ⟨rfl, (filtered_leaf rfl).trans (filtered_leaf rfl).symm⟩
      | directory =>
          rw [entry, entry, TreeEntry.mk.injEq] at h
          cases h.2.1
      | symlink =>
          rw [entry, entry, TreeEntry.mk.injEq] at h
          cases h.2.1
  | symlink mode target =>
      intro n' p name _ _ hnc htext htext' h
      cases n' with
      | file =>
          rw [entry, entry, TreeEntry.mk.injEq] at h
          cases h.2.1
      | directory =>
          rw [entry, entry, TreeEntry.mk.injEq] at h
          cases h.2.1
      | symlink mode' target' =>
          rw [entry, entry, TreeEntry.mk.injEq] at h
          obtain ⟨-, -, hmode, -, hhash⟩ := h
          have htarget := hnc _ (ownBytes_subset p _ (Set.mem_insert _ _)) _
            (ownBytes_subset p _ (Set.mem_insert _ _)) hhash
          rw [htext .here, htext' .here] at htarget
          rw [kept, kept, hmode, htarget]
          exact ⟨rfl, (filtered_leaf rfl).trans (filtered_leaf rfl).symm⟩
  | directory mode readable l ih =>
      intro n' p name hsized hsized' hnc htext htext' h
      cases n' with
      | file =>
          rw [entry, entry, TreeEntry.mk.injEq] at h
          cases h.2.1
      | symlink =>
          rw [entry, entry, TreeEntry.mk.injEq] at h
          cases h.2.1
      | directory mode' readable' l' =>
          rw [entry, entry, TreeEntry.mk.injEq] at h
          obtain ⟨-, -, hmode, -, hhash⟩ := h
          exact ⟨by rw [kept, kept, hmode],
            filtered_of_entryTells hpacks ih hsized hsized' hnc htext htext' hhash⟩

/-- **The hash is the same, the same is left.** -/
theorem filtered_of_treeHash (hpacks : Packs w.serializeTree) {p : Path}
    {mode mode' : UInt32} {readable readable' : Bool} {l l' : List (String × Node)}
    (hsized : (Node.directory mode readable l).Sized)
    (hsized' : (Node.directory mode' readable' l').Sized)
    (hnc : NoCollision blake3 ((Node.directory mode readable l).allBytes blake3 w o p)
      ((Node.directory mode' readable' l').allBytes blake3 w o' p))
    (htext : KeepsTargets w o p (.directory mode readable l))
    (htext' : KeepsTargets w o' p (.directory mode' readable' l'))
    (h : treeHash blake3 w (treeEntries blake3 w o p l) =
      treeHash blake3 w (treeEntries blake3 w o' p l')) :
    filtered w o p (.directory mode readable l) =
      filtered w o' p (.directory mode' readable' l') :=
  filtered_of_entryTells hpacks (fun e _ => entryTells hpacks e.2) hsized hsized' hnc htext htext' h

end Node

end Cxdb
