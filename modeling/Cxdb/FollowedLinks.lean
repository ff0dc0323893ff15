import Mathlib.Data.Set.Card
import Cxdb.TreesAt

/-!
# Captures That Follow Links

A capture that follows symbolic links has no end of its own: the paths of a file system with links
go on forever, and only the canonical paths of the directories that the walk is in stop it. What
the walk reaches is a list of events that depends on the file system and the options alone. The
outcome of the walk is what a small machine makes of this list, which counts files and has the
marks that were left behind.

## Main results

* `buildTree_follows`: a walk with enough fuel has an outcome, and it is that of the machine.
* `buildTree_mono`: more fuel does not change an outcome.
-/

open ByteFormat

namespace Cxdb

/-! ### What is reached -/

/-- A part of what a walk reaches. -/
inductive WalkEvent where
  /-- A regular file, and whether it can be captured. -/
  | file (captured : Bool)
  /-- A directory: its canonical path, those of the directories that it is reached in, and whether
  it can be read. -/
  | directory (path real : Path) (within : Finset Path) (readable : Bool)
  deriving DecidableEq

section Events

variable (w : Walker) (o : SnapshotOptions) (fs : FileSystem)

/-- A regular file that is neither too large nor unreadable. -/
def isCaptured (path : Path) (info : FileInfo) : Bool :=
  if o.maxFileSize < info.size.toInt64 then false else (fs.readFile path).isSome

/-- What is reached by a path, where `below` has what is reached in directories. -/
def infoEvents (below : Path → List WalkEvent) (path : Path) (info : FileInfo) : List WalkEvent :=
  match info.kind with
  | .symlink => []
  | .regular => [.file (isCaptured o fs path info)]
  | .directory => below path

/-- What is reached by an entry of a directory. -/
def childEvents (below : Path → List WalkEvent) (path : Path) (de : DirEntry) : List WalkEvent :=
  if w.excludes o (Path.text (path ++ [w.text de.name])) de.isDir then []
  else (look o fs (path ++ [w.text de.name])).elim []
    (infoEvents o fs below (path ++ [w.text de.name]))

/-- **What a walk reaches in a directory**, in order; it does not go into a directory that it is
in. The fuel bounds how deep it goes. -/
def eventsAt : ℕ → Finset Path → Path → List WalkEvent
  | 0, _, _ => []
  | fuel + 1, within, path =>
    match fs.canonical path with
    | none => []
    | some real =>
      .directory path real within (fs.readDir path).isSome ::
        if real ∈ within then []
        else ((fs.readDir path).elim [] w.listing).flatMap
          (childEvents w o fs (eventsAt fuel (insert real within)) path)

end Events

/-! ### What comes of it -/

/-- How many files are captured, and the marks of directories that are left behind. -/
structure WalkState where
  count : ℕ
  left : Finset Path

/-- **What comes of reaching something**: the capture ends, or goes on. -/
def Walker.meet (w : Walker) (limit : ℕ) (s : WalkState) : WalkEvent → Except FstreeError WalkState
  | .file captured =>
      if limit ≤ s.count then .error .tooManyFiles
      else .ok { s with count := if captured then s.count + 1 else s.count }
  | .directory _ real within readable =>
      if real ∈ within ∨ real ∈ s.left then .error .cyclicLink
      else .ok { s with left := if readable ∨ w.unmarksFailed then s.left else insert real s.left }

/-- A builder is in the state of the machine. -/
structure Builder.At (b : Builder) (within : Finset Path) (s : WalkState) : Prop where
  count : b.fileCount = s.count
  visited : b.visited = within ∪ s.left
  disjoint : Disjoint within s.left

/-- An outcome that does not end the capture. -/
def GoesOn {α : Type} (r : Except FstreeError α) : Prop := ∀ e, r = .error e → e.ends = false

theorem goesOn_ok {α : Type} (a : α) : GoesOn (.ok a : Except FstreeError α) := fun _ h => by
  cases h

theorem goesOn_error {α : Type} {e : FstreeError} (h : e.ends = false) :
    GoesOn (.error e : Except FstreeError α) := fun _ he => Except.error.inj he ▸ h

section Traces

variable (blake3 : Bytes → Hash) (w : Walker) (o : SnapshotOptions) (fs : FileSystem)

/-- A builder keeps its tree objects, and gains those of the directories that are reached and can
be read. A tree object is as deep as the fuel `depth` of the whole walk allows. -/
structure Gains (depth : ℕ) (b : Builder) (evs : List WalkEvent) (b' : Builder) : Prop where
  keeps : ∀ {h}, h ∈ b.trees → h ∈ b'.trees
  has : ∀ {path real within}, .directory path real within true ∈ evs →
    ∃ es, treeAt blake3 w o fs (depth - path.length) path = some es ∧
      blake3 (w.serializeTree es) ∈ b'.trees

/-- A part of a walk in the directories `within` comes to what the machine comes to. What it
returns, where it does not end the capture, is as `P` says. -/
structure Traces {α : Type} (depth : ℕ) (P : Except FstreeError α → Prop) (within : Finset Path)
    (s : WalkState) (b : Builder) (evs : List WalkEvent)
    (result : Option (Except FstreeError α × Builder)) : Prop where
  ends : ∀ {e}, evs.foldlM (w.meet o.maxFiles) s = .error e → ∃ b', result = some (.error e, b')
  goes : ∀ {s'}, evs.foldlM (w.meet o.maxFiles) s = .ok s' → ∃ r b', result = some (r, b') ∧
    P r ∧ b'.At within s' ∧ Gains blake3 w o fs depth b evs b'

/-- A recursive call follows what is reached in directories of this depth. -/
def TracesBelow (depth : ℕ) (build : Path → Capturing Hash) (below : Path → List WalkEvent)
    (within : Finset Path) (length : ℕ) : Prop :=
  ∀ {path info b s}, path.length = length → look o fs path = some info →
    info.kind = .directory → b.At within s →
      Traces blake3 w o fs depth GoesOn within s b (below path) (build path b)

end Traces

variable {blake3 : Bytes → Hash} {w : Walker} {o : SnapshotOptions} {fs : FileSystem}
  {depth : ℕ}

theorem Gains.of_trees {b b' : Builder} {evs : List WalkEvent} (htrees : b'.trees = b.trees)
    (hevs : ∀ ev ∈ evs, ∃ captured, ev = .file captured) :
    Gains blake3 w o fs depth b evs b' where
  keeps h := htrees ▸ h
  has h := by
    obtain ⟨captured, heq⟩ := hevs _ h
    cases heq

theorem Gains.append {b b' b'' : Builder} {evs evs' : List WalkEvent}
    (h : Gains blake3 w o fs depth b evs b') (h' : Gains blake3 w o fs depth b' evs' b'') :
    Gains blake3 w o fs depth b (evs ++ evs') b'' where
  keeps hh := h'.keeps (h.keeps hh)
  has hmem := by
    rcases List.mem_append.mp hmem with hmem | hmem
    · obtain ⟨es, hes, hh⟩ := h.has hmem
      exact ⟨es, hes, h'.keeps hh⟩
    · exact h'.has hmem

section Rules

variable {α : Type} {P : Except FstreeError α → Prop} {within : Finset Path} {s s' : WalkState}
  {b b' : Builder} {evs evs' : List WalkEvent}

/-- What ends where the machine ends. -/
theorem Traces.of_error {e : FstreeError} (hrun : evs.foldlM (w.meet o.maxFiles) s = .error e) :
    Traces blake3 w o fs depth P within s b evs (some (.error e, b')) where
  ends h := ⟨b', by rw [hrun] at h; rw [Except.error.inj h]⟩
  goes h := by
    rw [hrun] at h
    cases h

/-- What goes on where the machine goes on. -/
theorem Traces.of_ok {r : Except FstreeError α}
    (hrun : evs.foldlM (w.meet o.maxFiles) s = .ok s') (hP : P r) (hb : b'.At within s')
    (hgains : Gains blake3 w o fs depth b evs b') :
    Traces blake3 w o fs depth P within s b evs (some (r, b')) where
  ends h := by
    rw [hrun] at h
    cases h
  goes h := by
    rw [hrun] at h
    exact ⟨r, b', rfl, hP, Except.ok.inj h ▸ hb, hgains⟩

/-- What goes on from where nothing was reached. -/
theorem Traces.nil {r : Except FstreeError α} (hP : P r) (hb : b'.At within s)
    (htrees : b'.trees = b.trees) :
    Traces blake3 w o fs depth P within s b [] (some (r, b')) :=
  .of_ok rfl hP hb (.of_trees htrees (by simp))

/-- What is reached in two parts, where the first one goes on. -/
theorem Traces.append {result : Option (Except FstreeError α × Builder)}
    (hrun : evs.foldlM (w.meet o.maxFiles) s = .ok s')
    (hgains : Gains blake3 w o fs depth b evs b')
    (h : Traces blake3 w o fs depth P within s' b' evs' result) :
    Traces blake3 w o fs depth P within s b (evs ++ evs') result where
  ends he := by
    rw [List.foldlM_append, hrun] at he
    exact h.ends he
  goes hs := by
    rw [List.foldlM_append, hrun] at hs
    obtain ⟨r, b'', hr, hP, hat, hgains'⟩ := h.goes hs
    exact ⟨r, b'', hr, hP, hat, hgains.append hgains'⟩

end Rules

/-- The machine ends a capture with one of two errors. -/
theorem Walker.meet_ends {limit : ℕ} {s : WalkState} {ev : WalkEvent} {e : FstreeError}
    (h : w.meet limit s ev = .error e) : e.ends = true := by
  cases ev with
  | file captured =>
      rw [meet] at h
      split_ifs at h
      rw [← Except.error.inj h]
      rfl
  | directory path real within readable =>
      rw [meet] at h
      split_ifs at h
      rw [← Except.error.inj h]
      rfl

theorem Walker.run_ends {limit : ℕ} {s : WalkState} {evs : List WalkEvent} {e : FstreeError}
    (h : evs.foldlM (w.meet limit) s = .error e) : e.ends = true := by
  induction evs generalizing s with
  | nil => cases h
  | cons ev evs ih =>
      rw [List.foldlM_cons] at h
      cases hev : w.meet limit s ev with
      | error e' =>
          rw [hev] at h
          obtain rfl := Except.error.inj h
          exact w.meet_ends hev
      | ok s' =>
          rw [hev] at h
          exact ih h

/-! ### The walk -/

variable {build : Path → Capturing Hash} {below : Path → List WalkEvent} {within : Finset Path}
  {length : ℕ}

theorem buildFile_follows {path : Path} {name : Bytes} {info : FileInfo} {b : Builder}
    {s : WalkState} (hb : b.At within s) :
    Traces blake3 w o fs depth GoesOn within s b [.file (isCaptured o fs path info)]
      (buildFile blake3 w o fs path name info b) := by
  have hgains : ∀ {b' : Builder} {captured}, b'.trees = b.trees →
      Gains blake3 w o fs depth b [.file captured] b' := fun htrees =>
    .of_trees htrees fun ev hev => ⟨_, List.mem_singleton.mp hev⟩
  have hrun : ∀ captured, [WalkEvent.file captured].foldlM (w.meet o.maxFiles) s =
      w.meet o.maxFiles s (.file captured) := fun captured => by
    rw [List.foldlM_cons]
    simp only [List.foldlM_nil, bind_pure]
  rw [buildFile, isCaptured, hb.count]
  by_cases hlimit : o.maxFiles ≤ s.count
  · rw [if_pos hlimit]
    exact .of_error ((hrun _).trans (if_pos hlimit))
  · rw [if_neg hlimit]
    by_cases hsize : o.maxFileSize < info.size.toInt64
    · rw [if_pos hsize, if_pos hsize]
      exact .of_ok ((hrun _).trans (if_neg hlimit)) (goesOn_error rfl) hb (hgains rfl)
    · rw [if_neg hsize, if_neg hsize]
      cases hread : fs.readFile path with
      | none => exact .of_ok ((hrun _).trans (if_neg hlimit)) (goesOn_error rfl) hb (hgains rfl)
      | some content =>
          exact .of_ok ((hrun _).trans (if_neg hlimit)) (goesOn_ok _)
            ⟨rfl, hb.visited, hb.disjoint⟩ (hgains rfl)

theorem buildSymlink_follows {path : Path} {name : Bytes} {info : FileInfo} {b : Builder}
    {s : WalkState} (hb : b.At within s) :
    Traces blake3 w o fs depth GoesOn within s b [] (buildSymlink blake3 w fs path name info b) := by
  rw [buildSymlink]
  cases hread : fs.readLink path with
  | none => exact .nil (goesOn_error rfl) hb rfl
  | some target => exact .nil (goesOn_ok _) ⟨hb.count, hb.visited, hb.disjoint⟩ rfl

/-- **An entry of a directory** comes to what the machine makes of it. -/
theorem buildEntry_follows (hbuild : TracesBelow blake3 w o fs depth build below within length)
    {path : Path} {name : Bytes} {info : FileInfo} (hlength : path.length = length)
    (hlook : look o fs path = some info) {b : Builder} {s : WalkState} (hb : b.At within s) :
    Traces blake3 w o fs depth GoesOn within s b (infoEvents o fs below path info)
      (buildEntry blake3 w o fs build path name info b) := by
  rw [buildEntry, infoEvents]
  cases hkind : info.kind with
  | symlink => exact buildSymlink_follows hb
  | regular => exact buildFile_follows hb
  | directory =>
      have hdir := hbuild hlength hlook hkind hb
      dsimp only
      constructor
      · intro e he
        obtain ⟨b', hb'⟩ := hdir.ends he
        exact ⟨b', by rw [hb']; rfl⟩
      · intro s' hs'
        obtain ⟨r, b', hr, hgoes, hat⟩ := hdir.goes hs'
        refine ⟨_, b', by rw [hr]; rfl, ?_, hat⟩
        cases r with
        | ok hash => exact goesOn_ok _
        | error e => exact goesOn_error (hgoes e rfl)

/-- **The loop over a directory** comes to what the machine makes of its entries. -/
theorem buildEntries_follows (hbuild : TracesBelow blake3 w o fs depth build below within length)
    {path : Path} (hlength : path.length + 1 = length) (des : List DirEntry)
    (entries : List TreeEntry) {b : Builder} {s : WalkState} (hb : b.At within s) :
    Traces blake3 w o fs depth (fun r => r.toOption.isSome = true) within s b
      (des.flatMap (childEvents w o fs below path))
      (buildEntries blake3 w o fs build path des entries b) := by
  induction des generalizing entries b s with
  | nil => exact .nil rfl hb rfl
  | cons de des ih =>
      rw [buildEntries, List.flatMap_cons, childEvents]
      by_cases hexcl : w.excludes o (Path.text (path ++ [w.text de.name])) de.isDir = true
      · rw [if_pos hexcl, if_pos hexcl]
        exact ih entries hb
      · rw [if_neg hexcl, if_neg hexcl, ← look]
        cases hlook : look o fs (path ++ [w.text de.name]) with
        | none => exact ih entries hb
        | some info =>
            have hentry : Traces blake3 w o fs depth GoesOn within s b _ (buildEntry blake3 w o fs
                build (path ++ [w.text de.name]) (w.text de.name) info b) :=
              buildEntry_follows hbuild (by simpa using hlength) hlook hb
            dsimp only [Option.elim]
            cases hrun : (infoEvents o fs below (path ++ [w.text de.name]) info).foldlM
                (w.meet o.maxFiles) s with
            | error e =>
                obtain ⟨b', hb'⟩ := hentry.ends hrun
                rw [hb']
                dsimp only
                rw [if_pos (w.run_ends hrun)]
                refine .of_error ?_
                rw [List.foldlM_append, hrun]
                rfl
            | ok s' =>
                obtain ⟨r, b', hr, hgoes, hat, hgains⟩ := hentry.goes hrun
                rw [hr]
                cases r with
                | ok te => exact .append hrun hgains (ih (entries ++ [te]) hat)
                | error e =>
                    dsimp only
                    rw [if_neg (by rw [hgoes e rfl]; exact Bool.false_ne_true)]
                    exact .append hrun hgains (ih entries hat)

/-- The mark of a directory that the walk goes into. -/
theorem Builder.At.enter {b : Builder} {within : Finset Path} {s : WalkState}
    (hb : b.At within s) {real : Path} (hleft : real ∉ s.left) :
    { b with visited := insert real b.visited }.At (insert real within) s where
  count := hb.count
  visited := by
    dsimp only
    rw [hb.visited, Finset.insert_union]
  disjoint := Finset.disjoint_insert_left.mpr ⟨hleft, hb.disjoint⟩

/-- The mark is taken off again. -/
theorem Builder.At.erase {b : Builder} {within : Finset Path} {s : WalkState} {real : Path}
    (hb : b.At (insert real within) s) (hwithin : real ∉ within) :
    { b with visited := b.visited.erase real }.At within s where
  count := hb.count
  visited := by
    have hleft : real ∉ s.left :=
      (Finset.disjoint_insert_left.mp hb.disjoint).1
    dsimp only
    rw [hb.visited, Finset.insert_union, Finset.erase_insert]
    exact fun h => (Finset.mem_union.mp h).elim hwithin hleft
  disjoint := (Finset.disjoint_insert_left.mp hb.disjoint).2

/-- The mark is left behind. -/
theorem Builder.At.leave {b : Builder} {within : Finset Path} {s : WalkState} {real : Path}
    (hb : b.At (insert real within) s) (hwithin : real ∉ within) :
    b.At within { s with left := insert real s.left } where
  count := hb.count
  visited := by rw [hb.visited, Finset.insert_union, Finset.union_insert]
  disjoint := Finset.disjoint_insert_right.mpr
    ⟨hwithin, (Finset.disjoint_insert_left.mp hb.disjoint).2⟩

/-- What is gained by the directory itself, behind what is gained in it. -/
theorem Gains.directory {b b₁ b' : Builder} {evs : List WalkEvent} {path real : Path}
    {within : Finset Path} {es : List TreeEntry} (h : Gains blake3 w o fs depth b evs b₁)
    (hkeeps : ∀ {k}, k ∈ b₁.trees → k ∈ b'.trees)
    (htree : treeAt blake3 w o fs (depth - path.length) path = some es)
    (hes : blake3 (w.serializeTree es) ∈ b'.trees) :
    Gains blake3 w o fs depth b (.directory path real within true :: evs) b' where
  keeps hk := hkeeps (h.keeps hk)
  has hmem := by
    rcases List.mem_cons.mp hmem with heq | hmem
    · obtain ⟨rfl, -, -, -⟩ := WalkEvent.directory.inj heq
      exact ⟨es, htree, hes⟩
    · obtain ⟨es', hes', hk⟩ := h.has hmem
      exact ⟨es', hes', hkeeps hk⟩

/-- What the walk into a directory that can be read comes to. -/
theorem buildDir_follows {path real : Path} {des : List DirEntry} {fuel : ℕ}
    (hread : fs.readDir path = some des) (hreal : real ∉ within) {s : WalkState} {b : Builder}
    (hdepth : depth = fuel + 1 + path.length) {evs : List WalkEvent}
    (hloop : Traces blake3 w o fs depth (fun r => r.toOption.isSome = true) (insert real within) s
      { b with visited := insert real b.visited } evs
      (buildEntries blake3 w o fs (buildTree blake3 w o fs fuel) path (w.listing des) []
        { b with visited := insert real b.visited }))
    (hevent : w.meet o.maxFiles s (.directory path real within true) = .ok s) :
    Traces blake3 w o fs depth GoesOn within s b (.directory path real within true :: evs)
      ((buildDir blake3 w o fs (buildTree blake3 w o fs fuel) path
        { b with visited := insert real b.visited }).map fun (r, b) => (r, w.leave real r b)) := by
  have hrun : (WalkEvent.directory path real within true :: evs).foldlM (w.meet o.maxFiles) s =
      evs.foldlM (w.meet o.maxFiles) s := by
    rw [List.foldlM_cons, hevent]
    rfl
  rw [buildDir, hread]
  dsimp only
  constructor
  · intro e he
    rw [hrun] at he
    obtain ⟨b', hb'⟩ := hloop.ends he
    exact ⟨_, by rw [hb']; rfl⟩
  · intro s' hs'
    rw [hrun] at hs'
    obtain ⟨r, b', hr, hok, hat, hgains⟩ := hloop.goes hs'
    cases r with
    | error e => cases hok
    | ok entries =>
        have hafter := hat.erase hreal
        have htree : treeAt blake3 w o fs (depth - path.length) path =
            some (sortByName entries) := by
          have hfuel : depth - path.length = fuel + 1 := by omega
          obtain ⟨hmakes, -⟩ := buildEntries_makes (buildTree_makes fuel) (w.listing des) [] hr
          rcases hmakes with ⟨e, he, -⟩ | hmakes
          · cases he
          · obtain rfl : entries = _ := Option.some.inj hmakes
            rw [hfuel, treeAt, treeOf, hread, List.nil_append, Option.map_some]
        refine ⟨_, _, by rw [hr]; rfl, goesOn_ok _, ?_, ?_⟩
        · refine ⟨hafter.count, ?_, hafter.disjoint⟩
          simp only [Walker.leave, Except.toOption, Option.isSome_some, or_true, if_true]
          exact hafter.visited
        · refine Gains.directory ⟨hgains.keeps, hgains.has⟩ (fun hk => ?_) htree ?_
          · exact Finmap.mem_insert.mpr (Or.inr hk)
          · exact Finmap.mem_insert.mpr (Or.inl rfl)

/-- **A walk with enough fuel** comes to what the machine makes of what it reaches. -/
theorem buildTree_follows
    (hcanonical : ∀ {p info}, look o fs p = some info → info.kind = .directory →
      ∃ real, fs.canonical p = some real)
    {all : Finset Path} (hall : ∀ {p real}, fs.canonical p = some real → real ∈ all) (fuel : ℕ)
    {within : Finset Path} (hwithin : within ⊆ all) (hfuel : all.card < fuel + within.card)
    {path real : Path} (hreal : fs.canonical path = some real)
    (hdepth : depth = fuel + path.length) {b : Builder} {s : WalkState} (hb : b.At within s) :
    Traces blake3 w o fs depth GoesOn within s b (eventsAt w o fs fuel within path)
      (buildTree blake3 w o fs fuel path b) := by
  induction fuel generalizing within path real b s with
  | zero =>
      have hle := Finset.card_le_card hwithin
      omega
  | succ fuel ih =>
      rw [buildTree, eventsAt, hreal]
      dsimp only
      have hvisited : real ∈ b.visited ↔ real ∈ within ∨ real ∈ s.left := by
        rw [hb.visited, Finset.mem_union]
      by_cases hagain : real ∈ within ∨ real ∈ s.left
      · rw [if_pos (hvisited.mpr hagain)]
        refine .of_error ?_
        rw [List.foldlM_cons, Walker.meet, if_pos hagain]
        rfl
      · obtain ⟨hnew, hleft⟩ := not_or.mp hagain
        rw [if_neg (mt hvisited.mp hagain), if_neg hnew]
        have henter := hb.enter hleft
        cases hread : fs.readDir path with
        | none =>
            rw [buildDir, hread]
            have hrun : [WalkEvent.directory path real within false].foldlM (w.meet o.maxFiles) s =
                .ok { s with left := if w.unmarksFailed then s.left else insert real s.left } := by
              rw [List.foldlM_cons, Walker.meet, if_neg hagain]
              simp
            refine .of_ok hrun (goesOn_error rfl) ?_ ?_
            · rw [Walker.leave]
              by_cases hunmarks : w.unmarksFailed = true
              · simp only [hunmarks, if_true, true_or]
                exact henter.erase hnew
              · simp only [hunmarks, Option.isSome_none, Bool.false_eq_true, or_self, if_false,
                  Except.toOption]
                exact henter.leave hnew
            · exact ⟨id, fun hmem => by simp at hmem⟩
        | some des =>
            refine buildDir_follows hread hnew hdepth ?_ ?_
            · refine buildEntries_follows ?_ rfl (w.listing des) [] henter
              intro p info b s hlength hlook hkind hb
              obtain ⟨real', hreal'⟩ := hcanonical hlook hkind
              refine ih (Finset.insert_subset (hall hreal) hwithin) ?_ hreal' (by omega) hb
              rw [Finset.card_insert_of_notMem hnew]
              omega
            · rw [Walker.meet, if_neg hagain, if_pos (Or.inl rfl)]

/-! ### Fuel -/

/-- Where one recursive call has an outcome, the other has the same. -/
def Extends (build build' : Path → Capturing Hash) : Prop :=
  ∀ {path b x}, build path b = some x → build' path b = some x

theorem buildEntries_mono {build' : Path → Capturing Hash} (h : Extends build build')
    {path : Path} (des : List DirEntry) (entries : List TreeEntry) {b : Builder}
    {x : Except FstreeError (List TreeEntry) × Builder}
    (hx : buildEntries blake3 w o fs build path des entries b = some x) :
    buildEntries blake3 w o fs build' path des entries b = some x := by
  induction des generalizing entries b with
  | nil => exact hx
  | cons de des ih =>
      have hentry : ∀ {path name info b y},
          buildEntry blake3 w o fs build path name info b = some y →
            buildEntry blake3 w o fs build' path name info b = some y := by
        intro path name info b y hy
        rw [buildEntry] at hy ⊢
        cases hkind : info.kind with
        | symlink | regular => rwa [hkind] at hy
        | directory =>
            rw [hkind] at hy
            obtain ⟨z, hz, rfl⟩ := Option.map_eq_some_iff.mp hy
            exact Option.map_eq_some_iff.mpr ⟨z, h hz, rfl⟩
      rw [buildEntries, ← look] at hx ⊢
      split_ifs at hx ⊢
      · exact ih entries hx
      · cases hlook : look o fs (path ++ [w.text de.name]) with
        | none =>
            rw [hlook] at hx
            exact ih entries hx
        | some info =>
            rw [hlook] at hx
            dsimp only at hx ⊢
            cases hy : buildEntry blake3 w o fs build (path ++ [w.text de.name])
                (w.text de.name) info b with
            | none =>
                rw [hy] at hx
                cases hx
            | some y =>
                rw [hy] at hx
                rw [hentry hy]
                obtain ⟨r, b'⟩ := y
                cases r with
                | ok te => exact ih _ hx
                | error e =>
                    dsimp only at hx ⊢
                    split_ifs at hx ⊢
                    · exact hx
                    · exact ih entries hx

theorem buildDir_mono {build' : Path → Capturing Hash} (h : Extends build build') :
    Extends (buildDir blake3 w o fs build) (buildDir blake3 w o fs build') := by
  intro path b x hx
  rw [buildDir] at hx ⊢
  cases hread : fs.readDir path with
  | none => rwa [hread] at hx
  | some des =>
      rw [hread] at hx
      dsimp only at hx ⊢
      cases hloop : buildEntries blake3 w o fs build path (w.listing des) [] b with
      | none =>
          rw [hloop] at hx
          cases hx
      | some y =>
          rw [hloop] at hx
          rwa [buildEntries_mono h (w.listing des) [] hloop]

/-- **More fuel does not change an outcome.** -/
theorem buildTree_mono {fuel fuel' : ℕ} (h : fuel ≤ fuel') :
    Extends (buildTree blake3 w o fs fuel) (buildTree blake3 w o fs fuel') := by
  induction fuel generalizing fuel' with
  | zero =>
      intro path b x hx
      cases hx
  | succ fuel ih =>
      obtain ⟨fuel', rfl⟩ := Nat.exists_eq_succ_of_ne_zero (Nat.ne_of_gt (Nat.lt_of_lt_of_le
        (Nat.succ_pos fuel) h))
      intro path b x hx
      have hdir : Extends (buildDir blake3 w o fs (buildTree blake3 w o fs fuel))
          (buildDir blake3 w o fs (buildTree blake3 w o fs fuel')) :=
        buildDir_mono (ih (Nat.le_of_succ_le_succ h))
      rw [buildTree] at hx ⊢
      split at hx
      · exact hdir hx
      · split_ifs at hx ⊢
        · exact hx
        · obtain ⟨y, hy, rfl⟩ := Option.map_eq_some_iff.mp hx
          exact Option.map_eq_some_iff.mpr ⟨y, hdir hy, rfl⟩

theorem capture_mono {fuel fuel' : ℕ} (h : fuel ≤ fuel') {r : Except FstreeError Snapshot}
    (hr : capture blake3 w o fs fuel = some r) : capture blake3 w o fs fuel' = some r := by
  rw [capture] at hr ⊢
  split at hr
  · exact hr
  · split_ifs at hr ⊢
    · exact hr
    · obtain ⟨y, hy, rfl⟩ := Option.map_eq_some_iff.mp hr
      exact Option.map_eq_some_iff.mpr ⟨y, buildTree_mono h hy, rfl⟩

/-! ### Where directories are reached -/

/-- What is reached is the directory itself, or is reached by one of its entries. -/
theorem mem_eventsAt_succ {fuel : ℕ} {path : Path} {ev : WalkEvent}
    (h : ev ∈ eventsAt w o fs (fuel + 1) within path) :
    ∃ real, fs.canonical path = some real ∧
      (ev = .directory path real within (fs.readDir path).isSome ∨
        real ∉ within ∧ ∃ des de, fs.readDir path = some des ∧ de ∈ w.listing des ∧
          ev ∈ childEvents w o fs (eventsAt w o fs fuel (insert real within)) path de) := by
  rw [eventsAt] at h
  cases hreal : fs.canonical path with
  | none =>
      rw [hreal] at h
      cases h
  | some real =>
      rw [hreal] at h
      refine ⟨real, rfl, ?_⟩
      rcases List.mem_cons.mp h with rfl | h
      · exact .inl rfl
      · by_cases hwithin : real ∈ within
        · rw [if_pos hwithin] at h
          cases h
        · rw [if_neg hwithin] at h
          cases hread : fs.readDir path with
          | none =>
              rw [hread] at h
              cases h
          | some des =>
              rw [hread] at h
              obtain ⟨de, hde, hev⟩ := List.mem_flatMap.mp h
              exact .inr ⟨hwithin, des, de, rfl, hde, hev⟩

/-- A directory that is reached by an entry is reached in the directory that the entry names. -/
theorem directory_mem_childEvents {path q real : Path} {de : DirEntry} {within' : Finset Path}
    {readable : Bool} (h : .directory q real within' readable ∈ childEvents w o fs below path de) :
    ¬w.excludes o (Path.text (path ++ [w.text de.name])) de.isDir = true ∧
      ∃ info, look o fs (path ++ [w.text de.name]) = some info ∧ info.kind = .directory ∧
        .directory q real within' readable ∈ below (path ++ [w.text de.name]) := by
  rw [childEvents] at h
  split_ifs at h with hexcl
  · cases h
  · refine ⟨hexcl, ?_⟩
    cases hlook : look o fs (path ++ [w.text de.name]) with
    | none =>
        rw [hlook] at h
        cases h
    | some info =>
        rw [hlook, Option.elim_some, infoEvents] at h
        cases hkind : info.kind with
        | directory =>
            rw [hkind] at h
            exact ⟨info, rfl, hkind, h⟩
        | symlink =>
            rw [hkind] at h
            cases h
        | regular =>
            rw [hkind] at h
            cases List.mem_singleton.mp h

/-- What is told of a directory that is reached. -/
theorem readable_of_mem {fuel : ℕ} {path q real : Path} {within' : Finset Path} {readable : Bool}
    (h : .directory q real within' readable ∈ eventsAt w o fs fuel within path) :
    fs.canonical q = some real ∧ readable = (fs.readDir q).isSome := by
  induction fuel generalizing within path with
  | zero => cases h
  | succ fuel ih =>
      obtain ⟨real', hreal', heq | ⟨-, des, de, -, -, hev⟩⟩ := mem_eventsAt_succ h
      · obtain ⟨rfl, rfl, -, rfl⟩ := WalkEvent.directory.inj heq
        exact ⟨hreal', rfl⟩
      · obtain ⟨-, info, -, -, hbelow⟩ := directory_mem_childEvents hev
        exact ih hbelow

/-- **A directory that is reached** is the one that the walk begins with, or is in a directory
whose tree object has an entry for it, if it can be read. -/
theorem exists_entry_of_mem {fuel : ℕ} {path q real : Path} {within' : Finset Path}
    (hdepth : depth = fuel + path.length)
    (h : .directory q real within' true ∈ eventsAt w o fs fuel within path) :
    q = path ∨ ∃ parent name es te, q = parent ++ [name] ∧
      treeAt blake3 w o fs (depth - parent.length) parent = some es ∧ te ∈ es ∧
      te.name = name ∧ te.kind = .directory ∧
      ∃ es', treeAt blake3 w o fs (depth - q.length) q = some es' ∧
        te.hash = blake3 (w.serializeTree es') := by
  induction fuel generalizing within path with
  | zero => cases h
  | succ fuel ih =>
      obtain ⟨real', -, heq | ⟨-, des, de, hread, hde, hev⟩⟩ := mem_eventsAt_succ h
      · exact .inl (WalkEvent.directory.inj heq).1
      · obtain ⟨hexcl, info, hlook, hkind, hbelow⟩ := directory_mem_childEvents hev
        refine .inr ?_
        have hchild : depth = fuel + (path ++ [w.text de.name]).length := by
          rw [List.length_append, List.length_singleton]
          omega
        rcases ih hchild hbelow with rfl | hin
        · cases fuel with
          | zero => cases hbelow
          | succ fuel =>
              obtain ⟨des', hdes'⟩ := Option.isSome_iff_exists.mp (readable_of_mem hbelow).2.symm
              have hfuel : depth - (path ++ [w.text de.name]).length = fuel + 1 := by omega
              have hfuel' : depth - path.length = fuel + 1 + 1 := by omega
              obtain ⟨es', hes'⟩ : ∃ es', treeAt blake3 w o fs (fuel + 1)
                  (path ++ [w.text de.name]) = some es' := by
                rw [treeAt, treeOf, hdes']
                exact ⟨_, rfl⟩
              obtain ⟨es, hes⟩ : ∃ es, treeAt blake3 w o fs (fuel + 1 + 1) path = some es ∧
                  directoryEntry blake3 w (w.text de.name) info es' ∈ es := by
                rw [treeAt, treeOf, hread]
                refine ⟨_, rfl, mem_sortByName.mpr (List.mem_filterMap.mpr ⟨de, hde, ?_⟩)⟩
                rw [childEntry, if_neg hexcl, hlook, Option.bind_some, entryFor, hkind]
                exact Option.map_eq_some_iff.mpr ⟨es', hes', rfl⟩
              exact ⟨path, _, es, _, rfl, hfuel' ▸ hes.1, hes.2, rfl, rfl, es', hfuel ▸ hes', rfl⟩
        · exact hin

end Cxdb
