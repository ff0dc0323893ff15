import Cxdb.Snapshots

/-!
# What a Directory Is Captured As

The tree object of a directory depends on the file system and the options alone. What was captured
before it only decides whether the capture ends there with an error.

## Main results

* `buildTree_makes`: a walk that does not end the capture comes to `treeAt`.
* `capture_trees`: a snapshot has such tree objects only, and the root is one of them.
* `treeAt_unique`: entries of one name in a tree object are one.
-/

open ByteFormat

namespace Cxdb

section TreeAt

variable (blake3 : Bytes → Hash) (w : Walker) (o : SnapshotOptions) (fs : FileSystem)

/-! ### Entries -/

/-- What a path is taken for. -/
def look (path : Path) : Option FileInfo :=
  if o.followSymlinks then fs.stat path else fs.lstat path

/-- The entry of a regular file, where it is not too large and can be read. -/
def fileEntry (path : Path) (name : Bytes) (info : FileInfo) : Option TreeEntry :=
  if o.maxFileSize < info.size.toInt64 then none
  else (fs.readFile path).map fun content =>
    { name, kind := .file, mode := w.permissions info.mode, size := info.size
      hash := blake3 content }

/-- The entry of a symbolic link that can be read. -/
def linkEntry (path : Path) (name : Bytes) (info : FileInfo) : Option TreeEntry :=
  (fs.readLink path).map fun target =>
    { name, kind := .symlink, mode := w.permissions info.mode
      size := UInt64.ofNat (w.text target).length, hash := blake3 (w.text target) }

/-- The entry of a directory with this tree object. -/
def directoryEntry (name : Bytes) (info : FileInfo) (es : List TreeEntry) : TreeEntry where
  name
  kind := .directory
  mode := w.permissions info.mode
  size := 0
  hash := blake3 (w.serializeTree es)

/-- The entry of a path, where `tree` has the tree objects of directories. -/
def entryFor (tree : Path → Option (List TreeEntry)) (path : Path) (name : Bytes)
    (info : FileInfo) : Option TreeEntry :=
  match info.kind with
  | .symlink => linkEntry blake3 w fs path name info
  | .directory => (tree path).map (directoryEntry blake3 w name info)
  | .regular => fileEntry blake3 w o fs path name info

/-- The entry for what a directory lists, where it is not left out. -/
def childEntry (tree : Path → Option (List TreeEntry)) (path : Path) (de : DirEntry) :
    Option TreeEntry :=
  if w.excludes o (Path.text (path ++ [w.text de.name])) de.isDir then none
  else (look o fs (path ++ [w.text de.name])).bind
    (entryFor blake3 w o fs tree (path ++ [w.text de.name]) (w.text de.name))

/-- The tree object of a directory that can be read. -/
def treeOf (tree : Path → Option (List TreeEntry)) (path : Path) : Option (List TreeEntry) :=
  (fs.readDir path).map fun des =>
    sortByName ((w.listing des).filterMap (childEntry blake3 w o fs tree path))

/-- **The tree object of a directory**, with those of its directories. The fuel bounds how deep it
goes. -/
def treeAt : ℕ → Path → Option (List TreeEntry)
  | 0, _ => none
  | fuel + 1, path => treeOf blake3 w o fs (treeAt fuel) path

end TreeAt

variable {blake3 : Bytes → Hash} {w : Walker} {o : SnapshotOptions} {fs : FileSystem}

variable {build : Path → Capturing Hash} {tree : Path → Option (List TreeEntry)}
  {T : List TreeEntry → Prop}

theorem entryFor_name {path : Path} {name : Bytes}
    {info : FileInfo} {te : TreeEntry} (h : entryFor blake3 w o fs tree path name info = some te) :
    te.name = name := by
  rw [entryFor] at h
  cases hkind : info.kind with
  | symlink =>
      rw [hkind] at h
      obtain ⟨target, -, rfl⟩ := Option.map_eq_some_iff.mp h
      rfl
  | directory =>
      rw [hkind] at h
      obtain ⟨es, -, rfl⟩ := Option.map_eq_some_iff.mp h
      rfl
  | regular =>
      rw [hkind] at h
      dsimp only at h
      rw [fileEntry] at h
      split_ifs at h
      obtain ⟨content, -, rfl⟩ := Option.map_eq_some_iff.mp h
      rfl

/-- What an entry in a tree object was made of. -/
theorem childEntry_eq_some {path : Path} {de : DirEntry}
    {te : TreeEntry} (h : childEntry blake3 w o fs tree path de = some te) :
    te.name = w.text de.name ∧ (look o fs (path ++ [te.name])).bind
      (entryFor blake3 w o fs tree (path ++ [te.name]) te.name) = some te := by
  rw [childEntry] at h
  split_ifs at h
  obtain ⟨info, -, hentry⟩ := Option.bind_eq_some_iff.mp h
  have hname := entryFor_name hentry
  rw [← hname] at h
  exact ⟨hname, h⟩

/-- **Entries of one name** in a tree object are one. -/
theorem treeAt_unique {fuel : ℕ} {path : Path} {es : List TreeEntry}
    (h : treeAt blake3 w o fs fuel path = some es) {te te' : TreeEntry} (hte : te ∈ es)
    (hte' : te' ∈ es) (hname : te.name = te'.name) : te = te' := by
  cases fuel with
  | zero => cases h
  | succ fuel =>
      rw [treeAt, treeOf] at h
      obtain ⟨des, -, rfl⟩ := Option.map_eq_some_iff.mp h
      obtain ⟨de, -, hde⟩ := List.mem_filterMap.mp (mem_sortByName.mp hte)
      obtain ⟨de', -, hde'⟩ := List.mem_filterMap.mp (mem_sortByName.mp hte')
      have hentry := (childEntry_eq_some hde).2
      rw [hname, (childEntry_eq_some hde').2] at hentry
      exact (Option.some.inj hentry).symm

/-! ### Walks -/

/-- An outcome ends the capture, or is `x`. -/
def Makes {α : Type} (r : Except FstreeError α) (x : Option α) : Prop :=
  (∃ e, r = .error e ∧ e.ends = true) ∨ r.toOption = x

theorem buildFile_makes {path : Path} {name : Bytes} {info : FileInfo} {b b' : Builder}
    {r : Except FstreeError TreeEntry}
    (h : buildFile blake3 w o fs path name info b = some (r, b')) :
    Makes r (fileEntry blake3 w o fs path name info) := by
  rw [buildFile] at h
  rw [fileEntry]
  split_ifs at h with hlimit hsize
  · obtain ⟨rfl, -⟩ := Prod.mk.inj (Option.some.inj h)
    exact .inl ⟨_, rfl, rfl⟩
  · obtain ⟨rfl, -⟩ := Prod.mk.inj (Option.some.inj h)
    exact .inr (if_pos hsize).symm
  · rw [if_neg hsize]
    cases hread : fs.readFile path with
    | none | some =>
        rw [hread] at h
        obtain ⟨rfl, -⟩ := Prod.mk.inj (Option.some.inj h)
        exact .inr rfl

theorem buildSymlink_makes {path : Path} {name : Bytes} {info : FileInfo} {b b' : Builder}
    {r : Except FstreeError TreeEntry}
    (h : buildSymlink blake3 w fs path name info b = some (r, b')) :
    Makes r (linkEntry blake3 w fs path name info) := by
  rw [buildSymlink] at h
  rw [linkEntry]
  cases hread : fs.readLink path with
  | none | some =>
      rw [hread] at h
      obtain ⟨rfl, -⟩ := Prod.mk.inj (Option.some.inj h)
      exact .inr rfl

/-- A recursive call makes the hashes of these tree objects, and adds such tree objects only. -/
structure MakesTrees (blake3 : Bytes → Hash) (w : Walker) (build : Path → Capturing Hash)
    (tree : Path → Option (List TreeEntry)) (T : List TreeEntry → Prop) : Prop where
  makes : ∀ {path b r b'}, build path b = some (r, b') →
    Makes r ((tree path).map fun es => blake3 (w.serializeTree es))
  adds : ∀ {path b r b'}, build path b = some (r, b') →
    (∀ h es, b.trees.lookup h = some es → T es) → ∀ h es, b'.trees.lookup h = some es → T es

theorem buildEntry_makes (hbuild : MakesTrees blake3 w build tree T) {path : Path} {name : Bytes}
    {info : FileInfo} {b b' : Builder} {r : Except FstreeError TreeEntry}
    (h : buildEntry blake3 w o fs build path name info b = some (r, b')) :
    Makes r (entryFor blake3 w o fs tree path name info) := by
  rw [buildEntry] at h
  rw [entryFor]
  cases hkind : info.kind with
  | symlink =>
      rw [hkind] at h
      exact buildSymlink_makes h
  | regular =>
      rw [hkind] at h
      exact buildFile_makes h
  | directory =>
      rw [hkind] at h
      obtain ⟨⟨x, b₁⟩, hx, heq⟩ := Option.map_eq_some_iff.mp h
      obtain ⟨rfl, -⟩ := Prod.mk.inj heq
      rcases hbuild.makes hx with ⟨e, rfl, he⟩ | hx
      · exact .inl ⟨e, rfl, he⟩
      · refine .inr ?_
        cases x with
        | error e =>
            have hnone : tree path = none := by simpa [Except.toOption] using hx.symm
            simp [hnone, Except.toOption, Except.map]
        | ok hash =>
            obtain ⟨es, hes, rfl⟩ := Option.map_eq_some_iff.mp hx.symm
            simp [hes, Except.toOption, Except.map, directoryEntry]

theorem buildEntry_trees (hbuild : MakesTrees blake3 w build tree T) {path : Path} {name : Bytes}
    {info : FileInfo} {b b' : Builder} {r : Except FstreeError TreeEntry}
    (h : buildEntry blake3 w o fs build path name info b = some (r, b'))
    (hb : ∀ h es, b.trees.lookup h = some es → T es) :
    ∀ h es, b'.trees.lookup h = some es → T es := by
  rw [buildEntry] at h
  cases hkind : info.kind with
  | symlink =>
      rw [hkind] at h
      dsimp only at h
      rw [buildSymlink] at h
      split at h
      · obtain ⟨-, rfl⟩ := Prod.mk.inj (Option.some.inj h)
        exact hb
      · obtain ⟨-, rfl⟩ := Prod.mk.inj (Option.some.inj h)
        exact hb
  | regular =>
      rw [hkind] at h
      dsimp only at h
      rw [buildFile] at h
      split_ifs at h
      · obtain ⟨-, rfl⟩ := Prod.mk.inj (Option.some.inj h)
        exact hb
      · obtain ⟨-, rfl⟩ := Prod.mk.inj (Option.some.inj h)
        exact hb
      · split at h
        · obtain ⟨-, rfl⟩ := Prod.mk.inj (Option.some.inj h)
          exact hb
        · obtain ⟨-, rfl⟩ := Prod.mk.inj (Option.some.inj h)
          exact hb
  | directory =>
      rw [hkind] at h
      obtain ⟨⟨x, b₁⟩, hx, heq⟩ := Option.map_eq_some_iff.mp h
      obtain ⟨-, rfl⟩ := Prod.mk.inj heq
      exact hbuild.adds hx hb

/-- **The loop over a directory** comes to the entries for what is listed. -/
theorem buildEntries_makes (hbuild : MakesTrees blake3 w build tree T) {path : Path}
    (des : List DirEntry) (entries : List TreeEntry) {b b' : Builder}
    {r : Except FstreeError (List TreeEntry)}
    (h : buildEntries blake3 w o fs build path des entries b = some (r, b')) :
    Makes r (some (entries ++ des.filterMap (childEntry blake3 w o fs tree path))) ∧
      ((∀ h es, b.trees.lookup h = some es → T es) →
        ∀ h es, b'.trees.lookup h = some es → T es) := by
  induction des generalizing entries b with
  | nil =>
      obtain ⟨rfl, rfl⟩ := Prod.mk.inj (Option.some.inj h)
      exact ⟨.inr (by simp [Except.toOption]), id⟩
  | cons de des ih =>
      rw [buildEntries] at h
      by_cases hexcl : w.excludes o (Path.text (path ++ [w.text de.name])) de.isDir = true
      · rw [if_pos hexcl] at h
        have hchild : childEntry blake3 w o fs tree path de = none := by
          rw [childEntry, if_pos hexcl]
        rw [List.filterMap_cons_none hchild]
        exact ih entries h
      · rw [if_neg hexcl] at h
        have hchild : childEntry blake3 w o fs tree path de =
            (look o fs (path ++ [w.text de.name])).bind
              (entryFor blake3 w o fs tree (path ++ [w.text de.name]) (w.text de.name)) := by
          rw [childEntry, if_neg hexcl]
        rw [← look] at h
        cases hlook : look o fs (path ++ [w.text de.name]) with
        | none =>
            rw [hlook] at h hchild
            rw [List.filterMap_cons_none hchild]
            exact ih entries h
        | some info =>
            rw [hlook] at h hchild
            dsimp only at h
            cases hentry : buildEntry blake3 w o fs build (path ++ [w.text de.name])
                (w.text de.name) info b with
            | none =>
                rw [hentry] at h
                cases h
            | some s =>
                obtain ⟨x, b₁⟩ := s
                rw [hentry] at h
                have htrees := fun hb => buildEntry_trees hbuild hentry hb
                cases x with
                | ok te =>
                    rcases buildEntry_makes hbuild hentry with ⟨e, he, -⟩ | hmakes
                    · cases he
                    · rw [List.filterMap_cons_some (hchild.trans hmakes.symm)]
                      obtain ⟨hr, hadds⟩ := ih (entries ++ [te]) h
                      rw [List.append_assoc, List.singleton_append] at hr
                      exact ⟨hr, fun hb => hadds (htrees hb)⟩
                | error e =>
                    dsimp only at h
                    by_cases hends : e.ends = true
                    · rw [if_pos hends] at h
                      obtain ⟨rfl, rfl⟩ := Prod.mk.inj (Option.some.inj h)
                      exact ⟨.inl ⟨e, rfl, hends⟩, htrees⟩
                    · rw [if_neg hends] at h
                      rcases buildEntry_makes hbuild hentry with ⟨e', he, hends'⟩ | hmakes
                      · obtain rfl := Except.error.inj he
                        exact absurd hends' hends
                      · rw [List.filterMap_cons_none (hchild.trans hmakes.symm)]
                        obtain ⟨hr, hadds⟩ := ih entries h
                        exact ⟨hr, fun hb => hadds (htrees hb)⟩

theorem buildDir_makes (hbuild : MakesTrees blake3 w build tree T)
    (hT : ∀ path es, treeOf blake3 w o fs tree path = some es → T es) :
    MakesTrees blake3 w (buildDir blake3 w o fs build) (treeOf blake3 w o fs tree) T := by
  have hcases : ∀ {path b r b'}, buildDir blake3 w o fs build path b = some (r, b') →
      Makes r ((treeOf blake3 w o fs tree path).map fun es => blake3 (w.serializeTree es)) ∧
        ((∀ h es, b.trees.lookup h = some es → T es) →
          ∀ h es, b'.trees.lookup h = some es → T es) := by
    intro path b r b' h
    rw [buildDir] at h
    rw [treeOf]
    have hself := hT path
    rw [treeOf] at hself
    cases hread : fs.readDir path with
    | none =>
        rw [hread] at h
        obtain ⟨rfl, rfl⟩ := Prod.mk.inj (Option.some.inj h)
        exact ⟨.inr rfl, id⟩
    | some des =>
        rw [hread] at h hself
        dsimp only at h
        cases hloop : buildEntries blake3 w o fs build path (w.listing des) [] b with
        | none =>
            rw [hloop] at h
            cases h
        | some s =>
            obtain ⟨x, b₁⟩ := s
            rw [hloop] at h
            obtain ⟨hmakes, hadds⟩ := buildEntries_makes hbuild (w.listing des) [] hloop
            cases x with
            | error e =>
                obtain ⟨rfl, rfl⟩ := Prod.mk.inj (Option.some.inj h)
                rcases hmakes with ⟨e', he, hends⟩ | hmakes
                · obtain rfl := Except.error.inj he
                  exact ⟨.inl ⟨e, rfl, hends⟩, hadds⟩
                · cases hmakes
            | ok entries =>
                obtain ⟨rfl, rfl⟩ := Prod.mk.inj (Option.some.inj h)
                rcases hmakes with ⟨e, he, -⟩ | hmakes
                · cases he
                · obtain rfl : entries = _ := Option.some.inj hmakes
                  refine ⟨.inr rfl, fun hb k es hes => ?_⟩
                  dsimp only at hes
                  rw [LastWrite.lookup_insert] at hes
                  split_ifs at hes
                  · exact hself es hes
                  · exact hadds hb k es hes
  exact ⟨fun h => (hcases h).1, fun h => (hcases h).2⟩

/-- **A walk that does not end the capture** comes to the tree object of the directory. -/
theorem buildTree_makes (fuel : ℕ) :
    MakesTrees blake3 w (buildTree blake3 w o fs fuel) (treeAt blake3 w o fs fuel)
      fun es => ∃ k path, treeAt blake3 w o fs k path = some es := by
  induction fuel with
  | zero =>
      constructor
      · intro path b r b' h
        cases h
      · intro path b r b' h
        cases h
  | succ fuel ih =>
      have hdir : MakesTrees blake3 w (buildDir blake3 w o fs (buildTree blake3 w o fs fuel))
          (treeAt blake3 w o fs (fuel + 1))
          fun es => ∃ k path, treeAt blake3 w o fs k path = some es := by
        exact buildDir_makes ih fun path es hes => ⟨fuel + 1, path, hes⟩
      constructor
      · intro path b r b' h
        rw [buildTree] at h
        split at h
        · exact hdir.makes h
        · split_ifs at h
          · obtain ⟨rfl, -⟩ := Prod.mk.inj (Option.some.inj h)
            exact .inl ⟨_, rfl, rfl⟩
          · obtain ⟨⟨x, b₁⟩, hx, heq⟩ := Option.map_eq_some_iff.mp h
            obtain ⟨rfl, -⟩ := Prod.mk.inj heq
            exact hdir.makes hx
      · intro path b r b' h hb
        rw [buildTree] at h
        split at h
        · exact hdir.adds h hb
        · split_ifs at h
          · obtain ⟨-, rfl⟩ := Prod.mk.inj (Option.some.inj h)
            exact hb
          · obtain ⟨⟨x, b₁⟩, hx, heq⟩ := Option.map_eq_some_iff.mp h
            obtain ⟨-, rfl⟩ := Prod.mk.inj heq
            have hadds := hdir.adds hx hb
            exact hadds

/-- **The tree objects of a snapshot.** -/
theorem capture_trees {fuel : ℕ} {snap : Snapshot}
    (h : capture blake3 w o fs fuel = some (.ok snap)) :
    (∃ es, treeAt blake3 w o fs fuel [] = some es ∧
      snap.rootHash = blake3 (w.serializeTree es)) ∧
      ∀ k es, snap.trees.lookup k = some es →
        ∃ fuel path, treeAt blake3 w o fs fuel path = some es := by
  rw [capture] at h
  split at h
  · cases h
  · split_ifs at h
    · cases h
    obtain ⟨⟨r, b⟩, hbuild, heq⟩ := Option.map_eq_some_iff.mp h
    cases r with
    | error e => cases heq
    | ok rootHash =>
        obtain rfl := Except.ok.inj heq
        refine ⟨?_, (buildTree_makes fuel).adds hbuild (by simp [Builder.new])⟩
        rcases (buildTree_makes fuel).makes hbuild with ⟨e, he, -⟩ | hmakes
        · cases he
        · obtain ⟨es, hes, hhash⟩ := Option.map_eq_some_iff.mp hmakes.symm
          exact ⟨es, hes, hhash.symm⟩

end Cxdb
