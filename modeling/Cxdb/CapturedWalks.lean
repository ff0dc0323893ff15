import Cxdb.CapturedObjects

/-!
# Walks of Captures

A walk of the snapshot that a capture has made comes to what is left of the tree: to each file,
directory and link that is left, once, under its path.

## Main results

* `exists_visited_entries`: the entries of a directory are visited, if what is below them is.
* `exists_walk`: what a walk of a snapshot comes to.
-/

open ByteFormat

namespace Cxdb

namespace Node

variable {blake3 : Bytes → Hash} {w : Walker} {o : SnapshotOptions}

/-! ### The walk of a snapshot -/

/-- A client puts the paths of names in UTF-8 together, and shows them as they are. -/
def ReadsPaths (r : TreeReader) : Prop :=
  ∀ {p : Path} {name : Bytes}, (∀ c ∈ p, IsTextName c) → IsTextName name →
    r.pathOf p.text name = Path.text (p ++ [name]) ∧
      r.text (Path.text (p ++ [name])) = Path.text (p ++ [name])

theorem readsPaths_go : ReadsPaths Go.treeReader := fun hp hname =>
  ⟨(pathOf_text (fun c hc => (hp c hc).fileName) hname.fileName).1, rfl⟩

theorem readsPaths_rust : ReadsPaths Rust.treeReader := by
  intro p name hp hname
  refine ⟨(pathOf_text (fun c hc => (hp c hc).fileName) hname.fileName).2, ?_⟩
  obtain ⟨t, ht⟩ := Path.text_utf8 (p := p ++ [name]) fun c hc =>
    (List.mem_append.mp hc).elim (hp c) fun hc => List.mem_singleton.mp hc ▸ hname
  change toStringLossy (Path.text (p ++ [name])) = _
  rw [ht, toStringLossy_utf8Bytes]

/-- How a node is shown that is left under a path from `p`. -/
def shown (blake3 : Bytes → Hash) (w : Walker) (o : SnapshotOptions) (p : Path)
    (x : Path × Node) : Visit :=
  (Path.text (p ++ x.1), x.2.entry blake3 w o (p ++ x.1) (x.1.getLast?.getD []))

variable (blake3 w o) in
/-- The entries of a directory in the order of their names come from its nodes that are left. -/
theorem exists_sorted (p : Path) (l : List (String × Node)) :
    ∃ ds : List (String × Node),
      sortByName (treeEntries blake3 w o p l) =
        ds.map (fun d => d.2.entry blake3 w o (p ++ [utf8Bytes d.1]) (utf8Bytes d.1)) ∧
      (∀ d, d ∈ ds ↔ d ∈ l ∧ Admits w o p d) ∧
      ((l.map Prod.fst).Nodup → (ds.map Prod.fst).Nodup) := by
  set left : String × Node → Bool := fun d =>
    !(w.excludes o (Path.text (p ++ [utf8Bytes d.1])) d.2.isDir) && d.2.captured o with hleft
  have hiff : ∀ d, left d = true ↔ Admits w o p d := by
    intro d
    rw [hleft, Bool.and_eq_true, Bool.not_eq_true']
    exact ⟨fun h => ⟨h.1, h.2⟩, fun h => ⟨h.excludes, h.captured⟩⟩
  have hmap : treeEntries blake3 w o p l = (l.filter left).map
      (fun d => d.2.entry blake3 w o (p ++ [utf8Bytes d.1]) (utf8Bytes d.1)) := by
    induction l with
    | nil => rfl
    | cons d l ih =>
        rw [treeEntries, List.filter_cons]
        by_cases hd : left d = true
        · have ha := (hiff d).mp hd
          rw [if_pos hd, List.map_cons, ← ih]
          simp only [ha.excludes, ha.captured, Bool.false_eq_true, Bool.true_eq_false, or_self,
            if_false]
        · rw [if_neg hd, ← ih]
          refine if_pos ?_
          by_contra hno
          rw [not_or, Bool.not_eq_true, Bool.not_eq_false] at hno
          exact hd ((hiff d).mpr ⟨hno.1, hno.2⟩)
  have hperm : (sortByName (treeEntries blake3 w o p l)).Perm ((l.filter left).map
      (fun d => d.2.entry blake3 w o (p ++ [utf8Bytes d.1]) (utf8Bytes d.1))) := by
    rw [← hmap]
    exact List.perm_insertionSort _ _
  obtain ⟨ds, hds, heq⟩ := exists_perm_map _ hperm
  refine ⟨ds, heq, fun d => ?_, ?_⟩
  · rw [hds.mem_iff, List.mem_filter, hiff]
  · intro hnd
    exact (hds.map Prod.fst).nodup_iff.mpr ((List.filter_sublist.map _).nodup hnd)

/-- Some entries behind `p` are visited as the nodes `qs`, which are those that `P` has, once
each. -/
structure Visited (blake3 : Bytes → Hash) (w : Walker) (o : SnapshotOptions) (r : TreeReader)
    (snap : Snapshot) (entries : List TreeEntry) (p : Path) (P : Path → Node → Prop)
    (qs : List (Path × Node)) : Prop where
  visits : Visits r snap entries p.text (qs.map (shown blake3 w o p))
  nodup : (qs.map Prod.fst).Nodup
  mem_iff : ∀ q m, (q, m) ∈ qs ↔ P q m

/-- What is left behind the entries of a directory. -/
def LeftOf (w : Walker) (o : SnapshotOptions) (p : Path) (ds : List (String × Node)) (q : Path)
    (m : Node) : Prop :=
  ∃ d ∈ ds, ∃ q', q = utf8Bytes d.1 :: q' ∧ Includes w o (p ++ [utf8Bytes d.1]) d.2 q' m

/-- What is left below a node. -/
def LeftBelow (w : Walker) (o : SnapshotOptions) (p : Path) (n : Node) (q : Path) (m : Node) :
    Prop := q ≠ [] ∧ Includes w o p n q m

variable {r : TreeReader} {snap : Snapshot}

/-- A path below an entry of a directory. -/
theorem shown_inside (p : Path) (name : Bytes) {x : Path × Node} (hx : x.1 ≠ []) :
    shown blake3 w o (p ++ [name]) x = shown blake3 w o p (name :: x.1, x.2) := by
  obtain ⟨q, m⟩ := x
  have hlast : (name :: q).getLast? = q.getLast? := by
    obtain ⟨c, q, rfl⟩ := List.exists_cons_of_ne_nil hx
    exact List.getLast?_cons_cons
  simp only [shown, hlast, List.append_assoc, List.singleton_append]

/-- What is left behind the first entry of a directory, and behind the others. -/
theorem leftOf_cons {p q : Path} {d : String × Node} {ds : List (String × Node)} {m : Node} :
    LeftOf w o p (d :: ds) q m ↔
      (q, m) = ([utf8Bytes d.1], d.2) ∨
        (∃ q', q = utf8Bytes d.1 :: q' ∧ LeftBelow w o (p ++ [utf8Bytes d.1]) d.2 q' m) ∨
          LeftOf w o p ds q m := by
  rw [LeftOf, List.exists_mem_cons_iff, ← LeftOf, ← or_assoc]
  refine or_congr_left ⟨?_, ?_⟩
  · rintro ⟨q', rfl, hin⟩
    by_cases hq : q' = []
    · subst hq
      rw [Includes.nil_iff.mp hin]
      exact Or.inl rfl
    · exact Or.inr ⟨q', rfl, hq, hin⟩
  · rintro (heq | ⟨q', rfl, -, hin⟩)
    · obtain ⟨rfl, rfl⟩ := Prod.mk.inj heq
      exact ⟨[], rfl, .here⟩
    · exact ⟨q', rfl, hin⟩

/-- Nothing is left below a file or a link. -/
theorem not_leftBelow_leaf {p : Path} {n : Node} (hleaf : n.isDir = false) (q : Path) (m : Node) :
    ¬LeftBelow w o p n q m := by
  rintro ⟨hq, hin⟩
  have hmem : (q, m.kept w) ∈ filtered w o p n := ⟨hq, m, hin, rfl⟩
  rw [filtered_leaf hleaf] at hmem
  exact hmem

theorem entry_kind_iff {p : Path} {name : Bytes} {n : Node} :
    (n.entry blake3 w o p name).kind = .directory ↔ n.isDir = true := by
  cases n <;> simp [entry, isDir]

/-- **The entries of a directory** are visited, if what is below them is. -/
theorem exists_visited_entries (hr : ReadsPaths r) {p : Path} (hp : ∀ c ∈ p, IsTextName c)
    (ds : List (String × Node)) (hnd : (ds.map Prod.fst).Nodup)
    (hnames : ∀ d ∈ ds, IsTextName (utf8Bytes d.1))
    (hbelow : ∀ d ∈ ds, d.2.isDir = true → ∃ below qs,
      snap.trees.lookup
        (d.2.entry blake3 w o (p ++ [utf8Bytes d.1]) (utf8Bytes d.1)).hash = some below ∧
      Visited blake3 w o r snap below (p ++ [utf8Bytes d.1])
        (LeftBelow w o (p ++ [utf8Bytes d.1]) d.2) qs) :
    ∃ qs, Visited blake3 w o r snap
      (ds.map fun d => d.2.entry blake3 w o (p ++ [utf8Bytes d.1]) (utf8Bytes d.1)) p
      (LeftOf w o p ds) qs := by
  induction ds with
  | nil => exact ⟨[], .nil, List.nodup_nil, by simp [LeftOf]⟩
  | cons d ds ih =>
      rw [List.map_cons, List.nodup_cons] at hnd
      obtain ⟨qs, hvisits, hnodup, hmem⟩ := ih hnd.2
        (fun e he => hnames e (List.mem_cons_of_mem _ he))
        (fun e he => hbelow e (List.mem_cons_of_mem _ he))
      obtain ⟨hpath, htext⟩ := hr hp (hnames d List.mem_cons_self)
      set name := utf8Bytes d.1 with hname
      set te := d.2.entry blake3 w o (p ++ [name]) name with hte
      have hshown : (r.text (r.pathOf p.text te.name), te) = shown blake3 w o p ([name], d.2) := by
        rw [hte, entry_name, hpath, htext]
        rfl
      have hother : ∀ q, name :: q ∉ qs.map Prod.fst := by
        intro q hq
        obtain ⟨⟨q', m⟩, hin, rfl⟩ := List.mem_map.mp hq
        obtain ⟨e, he, q'', heq, -⟩ := (hmem _ _).mp hin
        have hsame : d.1 = e.1 := utf8Bytes_injective (List.cons.inj heq).1
        exact hnd.1 (hsame ▸ List.mem_map_of_mem he)
      have hsplit := fun q m => @leftOf_cons w o p q d ds m
      rw [List.map_cons, ← hname, ← hte]
      by_cases hdir : d.2.isDir = true
      · obtain ⟨below, us, hlookup, hus, hnodup', hmem'⟩ := hbelow d List.mem_cons_self hdir
        have hkind : te.kind = .directory := entry_kind_iff.mpr hdir
        have hne : ∀ x ∈ us, x.1 ≠ [] := fun x hx => ((hmem' x.1 x.2).mp hx).1
        have hmap : us.map (shown blake3 w o (p ++ [name])) =
            (us.map fun x => (name :: x.1, x.2)).map (shown blake3 w o p) := by
          rw [List.map_map]
          exact List.map_congr_left fun x hx => shown_inside p name (hne x hx)
        have hkeys : (us.map fun x => (name :: x.1, x.2)).map Prod.fst =
            (us.map Prod.fst).map (name :: ·) := by
          rw [List.map_map, List.map_map]
          rfl
        refine ⟨([name], d.2) :: (us.map (fun x => (name :: x.1, x.2)) ++ qs), ?_, ?_, ?_⟩
        · rw [List.map_cons, List.map_append, ← hmap, ← hshown]
          refine .directory hkind hlookup ?_ hvisits
          rwa [hte, entry_name, hpath]
        · rw [List.map_cons, List.map_append, hkeys, List.nodup_cons, List.nodup_append]
          refine ⟨?_, hnodup'.map (List.cons_injective), hnodup, ?_⟩
          · rw [List.mem_append, not_or]
            refine ⟨fun hin => ?_, hother []⟩
            obtain ⟨q, hq, heq⟩ := List.mem_map.mp hin
            obtain ⟨x, hx, rfl⟩ := List.mem_map.mp hq
            exact hne x hx (List.cons.inj heq).2
          · rintro a ha b hb rfl
            obtain ⟨q, -, rfl⟩ := List.mem_map.mp ha
            exact hother q hb
        · intro q m
          rw [hsplit, List.mem_cons, List.mem_append, hmem]
          refine or_congr_right (or_congr_left ?_)
          rw [List.mem_map]
          constructor
          · rintro ⟨x, hx, heq⟩
            obtain ⟨rfl, rfl⟩ := Prod.mk.inj heq
            exact ⟨x.1, rfl, (hmem' x.1 x.2).mp hx⟩
          · rintro ⟨q', rfl, hin⟩
            exact ⟨(q', m), (hmem' q' m).mpr hin, rfl⟩
      · have hkind : te.kind ≠ .directory := mt entry_kind_iff.mp hdir
        have hleaf : d.2.isDir = false := Bool.eq_false_of_not_eq_true hdir
        refine ⟨([name], d.2) :: qs, ?_, ?_, ?_⟩
        · rw [List.map_cons, ← hshown]
          exact .leaf hkind hvisits
        · rw [List.map_cons, List.nodup_cons]
          exact ⟨hother [], hnodup⟩
        · intro q m
          rw [hsplit, List.mem_cons, hmem]
          refine or_congr_right (or_iff_right ?_).symm
          rintro ⟨q', -, hin⟩
          exact not_leftBelow_leaf hleaf q' m hin

theorem Includes.textNames {p q : Path} {n m : Node} (h : Includes w o p n q m) :
    ∀ c ∈ q, ∃ s : String, c = utf8Bytes s := by
  induction h with
  | here => simp
  | inside _ _ _ ih => exact List.forall_mem_cons.mpr ⟨⟨_, rfl⟩, ih⟩

/-- The names on the way to what is left. -/
theorem Includes.isTextName {q : Path} {n m : Node} (h : Includes w o [] n q m)
    (htree : n.IsTree) : ∀ c ∈ q, IsTextName c := fun c hc =>
  ⟨htree.named (h.lookup htree.distinct) c hc, h.textNames c hc⟩

/-- What is left of a node is what is left of its entries. -/
theorem leftOf_iff {p : Path} {mode : UInt32} {readable : Bool} {l ds : List (String × Node)}
    (hds : ∀ d, d ∈ ds ↔ d ∈ l ∧ Admits w o p d) (q : Path) (m : Node) :
    LeftOf w o p ds q m ↔ LeftBelow w o p (.directory mode readable l) q m := by
  constructor
  · rintro ⟨d, hd, q', rfl, hin⟩
    obtain ⟨hdl, ha⟩ := (hds d).mp hd
    exact ⟨List.cons_ne_nil _ _, .inside hdl ha hin⟩
  · rintro ⟨hq, hin⟩
    obtain ⟨c, q', rfl⟩ := List.exists_cons_of_ne_nil hq
    obtain ⟨d, hdl, rfl, ha, hin'⟩ := Includes.cons_iff.mp hin
    exact ⟨d, (hds d).mpr ⟨hdl, ha⟩, q', rfl, hin'⟩

/-- **What is left of a directory** is visited in the snapshot. -/
theorem exists_visited (hw : Lawful w) (hpacks : Packs w.serializeTree) (hr : ReadsPaths r)
    (hfollow : o.followSymlinks = false) {mode : UInt32} {l : List (String × Node)} {fuel : ℕ}
    (htree : (Node.directory mode true l).IsTree)
    (hfuel : (Node.directory mode true l).depth ≤ fuel)
    (hnc : NoCollision blake3 ((Node.directory mode true l).allBytes blake3 w o [])
      ((Node.directory mode true l).allBytes blake3 w o []))
    (hsnap : capture blake3 w o (Node.directory mode true l).fileSystem fuel = some (.ok snap))
    {n : Node} {q : Path} (h : Includes w o [] (.directory mode true l) q n) :
    ∀ {mode' : UInt32} {readable : Bool} {l' : List (String × Node)},
      n = .directory mode' readable l' →
        ∃ qs, Visited blake3 w o r snap (sortByName (treeEntries blake3 w o q l')) q
          (LeftBelow w o q n) qs := by
  induction n using induction generalizing q with
  | file => intro mode' readable l' hn; cases hn
  | symlink => intro mode' readable l' hn; cases hn
  | directory mode₁ readable₁ l₁ ih =>
      intro mode' readable l' hn
      obtain ⟨rfl, rfl, rfl⟩ := Node.directory.inj hn
      obtain ⟨ds, hsorted, hds, hsub⟩ := exists_sorted blake3 w o q l₁
      have hinside : ∀ d ∈ ds, Includes w o [] (.directory mode true l) (q ++ [utf8Bytes d.1]) d.2 :=
        fun d hd => h.trans (.inside ((hds d).mp hd).1 ((hds d).mp hd).2 .here)
      have hnd : (ds.map Prod.fst).Nodup := by
        have hd := h.distinct htree.distinct
        rw [Distinct] at hd
        exact hsub hd.1
      have hnames : ∀ d ∈ ds, IsTextName (utf8Bytes d.1) := fun d hd =>
        (hinside d hd).isTextName htree _ (by simp)
      have hbelow : ∀ d ∈ ds, d.2.isDir = true → ∃ below qs,
          snap.trees.lookup
            (d.2.entry blake3 w o (q ++ [utf8Bytes d.1]) (utf8Bytes d.1)).hash = some below ∧
          Visited blake3 w o r snap below (q ++ [utf8Bytes d.1])
            (LeftBelow w o (q ++ [utf8Bytes d.1]) d.2) qs := by
        intro d hd hdir
        cases hnode : d.2 with
        | file => rw [hnode] at hdir; cases hdir
        | symlink => rw [hnode] at hdir; cases hdir
        | directory mode₂ readable₂ l₂ =>
            obtain ⟨qs, hqs⟩ := ih d ((hds d).mp hd).1 (hinside d hd) hnode
            have hin := hinside d hd
            rw [hnode] at hin hqs
            refine ⟨_, qs, ?_, hqs⟩
            rw [entry]
            exact hin.lookup_tree hw hpacks hfollow htree hfuel hnc hsnap
      obtain ⟨qs, hvisits, hnodup, hmem⟩ :=
        exists_visited_entries hr (h.isTextName htree) ds hnd hnames hbelow
      refine ⟨qs, ?_, hnodup, fun q' m => (hmem q' m).trans (leftOf_iff hds q' m)⟩
      rwa [hsorted]

/-- A walk of the snapshot comes to these entries, in this order. -/
def WalksOver (r : TreeReader) (snap : Snapshot) (vs : List Visit) : Prop :=
  ∀ σ : Type, ∃ bound, ∀ fuel, bound ≤ fuel →
    ∀ (fn : Bytes → TreeEntry → σ → Except FstreeError σ) (state : σ),
      snap.walk r fn fuel state = some (vs.foldlM (fun state v => fn v.1 v.2 state) state)

/-- What a capture that makes a snapshot tells of the tree. -/
theorem capture_ok (hw : Lawful w) (hfollow : o.followSymlinks = false) {mode : UInt32}
    {readable : Bool} {l : List (String × Node)} {fuel : ℕ}
    (htree : (Node.directory mode readable l).IsTree)
    (hfuel : (Node.directory mode readable l).depth ≤ fuel)
    (h : capture blake3 w o (Node.directory mode readable l).fileSystem fuel = some (.ok snap)) :
    readable = true ∧ passes o.maxFiles 0 ((Node.directory mode readable l).attempts w o []) = false ∧
      snap.rootHash = treeHash blake3 w (treeEntries blake3 w o [] l) := by
  have hout := capture_outcome blake3 hw hfollow htree.distinct hfuel
  dsimp only at hout
  rw [h] at hout
  by_cases hpasses : passes o.maxFiles 0 ((Node.directory mode readable l).attempts w o []) = true
  · rw [if_pos hpasses] at hout
    cases hout
  · rw [if_neg hpasses] at hout
    cases readable with
    | false => cases hout
    | true =>
        rw [if_pos rfl] at hout
        obtain ⟨snap', heq, hshows⟩ := hout
        obtain rfl := Except.ok.inj (Option.some.inj heq)
        exact ⟨rfl, Bool.eq_false_of_not_eq_true hpasses, hshows.rootHash⟩

theorem text_injective {p q : Path} (hp : p ≠ []) (hq : q ≠ []) (hpn : ∀ c ∈ p, IsTextName c)
    (hqn : ∀ c ∈ q, IsTextName c) (h : p.text = q.text) : p = q := by
  have hsplit : ∀ {p : Path}, p ≠ [] → (∀ c ∈ p, IsTextName c) →
      p.text.splitOn PathMatch.separator = p := fun hp hn =>
    List.splitOn_intercalate _ (fun c hc => (hn c hc).fileName.no_separator) hp
  rw [← hsplit hp hpn, h, hsplit hq hqn]

/-- A walk comes to one list of entries. -/
theorem WalksOver.unique {vs vs' : List Visit} (h : WalksOver r snap vs)
    (h' : WalksOver r snap vs') : vs = vs' := by
  obtain ⟨bound, h⟩ := h (List Visit)
  obtain ⟨bound', h'⟩ := h' (List Visit)
  have hcollect : ∀ us acc : List Visit,
      us.foldlM (fun acc v => (.ok (acc ++ [(v.1, v.2)]) : Except FstreeError (List Visit))) acc =
        .ok (acc ++ us) := by
    intro us
    induction us with
    | nil => intro acc; rw [List.append_nil]; rfl
    | cons u us ih =>
        intro acc
        rw [List.foldlM_cons]
        change List.foldlM _ (acc ++ [u]) us = _
        rw [ih, List.append_assoc, List.singleton_append]
  have hwalk := h (max bound bound') (le_max_left _ _)
    (fun path te acc => .ok (acc ++ [(path, te)])) []
  rw [h' (max bound bound') (le_max_right _ _)
    (fun path te acc => .ok (acc ++ [(path, te)])) [], hcollect, hcollect] at hwalk
  simpa using hwalk.symm

/-- **The walk of a capture** comes to what is left of the tree. -/
theorem exists_walk (hw : Lawful w) (hpacks : Packs w.serializeTree) (hr : ReadsPaths r)
    (hfollow : o.followSymlinks = false) {mode : UInt32} {l : List (String × Node)} {fuel : ℕ}
    (htree : (Node.directory mode true l).IsTree)
    (hfuel : (Node.directory mode true l).depth ≤ fuel)
    (hnc : NoCollision blake3 ((Node.directory mode true l).allBytes blake3 w o [])
      ((Node.directory mode true l).allBytes blake3 w o []))
    (hsnap : capture blake3 w o (Node.directory mode true l).fileSystem fuel = some (.ok snap)) :
    ∃ qs : List (Path × Node), WalksOver r snap (qs.map (shown blake3 w o [])) ∧
      (qs.map Prod.fst).Nodup ∧
      ∀ q m, (q, m) ∈ qs ↔ LeftBelow w o [] (.directory mode true l) q m := by
  obtain ⟨-, -, hrootHash⟩ := capture_ok hw hfollow htree hfuel hsnap
  obtain ⟨qs, hvisits, hnodup, hmem⟩ :=
    exists_visited hw hpacks hr hfollow htree hfuel hnc hsnap .here rfl
  have hlookup := Includes.here.lookup_tree hw hpacks hfollow htree hfuel hnc hsnap
  rw [← hrootHash] at hlookup
  refine ⟨qs, ?_, hnodup, hmem⟩
  intro σ
  exact walk_of_visits ⟨_, hlookup, hvisits⟩

end Node

end Cxdb
