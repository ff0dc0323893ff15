import Cxdb.ExceptLoops
import Cxdb.FollowedLinks
import Cxdb.SnapshotTrees

/-!
# Cycles of Links

A capture that follows links fails when a directory is reached in itself. The Go client takes the
mark off a directory on every way out of it. The Rust client leaves it on one that could not be
read, so that reaching this one a second time is taken for a cycle as well.

## Main results

* `cyclic_iff`: when a walk ends as cyclic.
* `mem_within_iff`: the directories that a directory is reached in.
* `symlink_capture`: captures that follow links terminate; when they are right about cycles.
* `unreadable_is_cyclic`: a capture that is not.
-/

open ByteFormat

namespace Cxdb

/-! ### The machine -/

/-- The regular files among what is reached. -/
def filesOf (evs : List WalkEvent) : List Bool :=
  evs.filterMap fun
    | .file captured => some captured
    | .directory .. => none

variable {w : Walker} {limit : ℕ}

theorem filesOf_file (captured : Bool) (evs : List WalkEvent) :
    filesOf (.file captured :: evs) = captured :: filesOf evs := rfl

theorem filesOf_directory (path real : Path) (within : Finset Path) (readable : Bool)
    (evs : List WalkEvent) :
    filesOf (.directory path real within readable :: evs) = filesOf evs := rfl

/-- Where the machine goes on, the limit was not passed, and the marks are those of directories
that could not be read. -/
theorem Walker.run_ok {evs : List WalkEvent} {s s' : WalkState}
    (h : evs.foldlM (w.meet limit) s = .ok s') :
    Node.passes limit s.count (filesOf evs) = false ∧
      ∀ c, c ∈ s'.left ↔ c ∈ s.left ∨
        w.unmarksFailed = false ∧ ∃ path within, .directory path c within false ∈ evs := by
  induction evs generalizing s with
  | nil =>
      obtain rfl := Except.ok.inj h
      exact ⟨rfl, fun c => by simp⟩
  | cons ev evs ih =>
      rw [List.foldlM_cons] at h
      cases ev with
      | file captured =>
          rw [meet] at h
          by_cases hlimit : limit ≤ s.count
          · rw [if_pos hlimit] at h
            cases h
          · rw [if_neg hlimit] at h
            obtain ⟨hpasses, hleft⟩ := ih h
            refine ⟨?_, fun c => by simpa using hleft c⟩
            rw [filesOf_file, Node.passes, hpasses, Bool.or_false]
            exact decide_eq_false hlimit
      | directory path real within readable =>
          rw [meet] at h
          by_cases hagain : real ∈ within ∨ real ∈ s.left
          · rw [if_pos hagain] at h
            cases h
          · rw [if_neg hagain] at h
            obtain ⟨hpasses, hleft⟩ := ih h
            refine ⟨hpasses, fun c => ?_⟩
            rw [hleft]
            cases readable with
            | true => simp
            | false =>
                cases hunmarks : w.unmarksFailed with
                | true => simp
                | false => simp [Finset.mem_insert, eq_comm, or_assoc, or_left_comm, exists_or]

/-- Where the machine ends otherwise than with a cycle, the limit was passed. -/
theorem Walker.run_error {evs : List WalkEvent} {s : WalkState} {e : FstreeError}
    (h : evs.foldlM (w.meet limit) s = .error e) :
    e = .cyclicLink ∨ Node.passes limit s.count (filesOf evs) = true := by
  induction evs generalizing s with
  | nil => cases h
  | cons ev evs ih =>
      rw [List.foldlM_cons] at h
      cases ev with
      | file captured =>
          rw [filesOf_file, Node.passes]
          by_cases hlimit : limit ≤ s.count
          · rw [decide_eq_true hlimit, Bool.true_or]
            exact .inr rfl
          · rw [meet, if_neg hlimit] at h
            refine (ih h).imp_right fun hpasses => ?_
            rw [hpasses, Bool.or_true]
      | directory path real within readable =>
          rw [meet] at h
          by_cases hagain : real ∈ within ∨ real ∈ s.left
          · rw [if_pos hagain] at h
            exact .inl (Except.error.inj h).symm
          · rw [if_neg hagain] at h
            have hrest := ih h
            exact hrest

/-- A directory that makes the walk end as cyclic, behind these events. -/
def IsCyclic (w : Walker) (pre : List WalkEvent) : WalkEvent → Prop
  | .file _ => False
  | .directory _ real within _ => real ∈ within ∨
      w.unmarksFailed = false ∧ ∃ path within, .directory path real within false ∈ pre

/-- **When a walk ends as cyclic**: it comes to such a directory without passing the limit. -/
theorem Walker.run_cyclic_iff {evs : List WalkEvent} {count : ℕ} :
    evs.foldlM (w.meet limit) ⟨count, ∅⟩ = .error .cyclicLink ↔
      ∃ pre ev post, evs = pre ++ ev :: post ∧
        Node.passes limit count (filesOf pre) = false ∧ IsCyclic w pre ev := by
  constructor
  · intro h
    obtain ⟨pre, ev, post, s, rfl, hpre, hev⟩ := ExceptLoops.foldlM_error_iff.mp h
    obtain ⟨hpasses, hleft⟩ := w.run_ok hpre
    refine ⟨pre, ev, post, rfl, hpasses, ?_⟩
    cases ev with
    | file captured =>
        rw [meet] at hev
        split_ifs at hev
        cases hev
    | directory path real within readable =>
        rw [meet] at hev
        split_ifs at hev with hagain
        rcases hagain with hagain | hagain
        · exact .inl hagain
        · exact .inr (((hleft real).mp hagain).resolve_left (Finset.notMem_empty real))
  · rintro ⟨pre, ev, post, rfl, hpasses, hcyclic⟩
    rw [List.foldlM_append]
    cases hpre : pre.foldlM (w.meet limit) ⟨count, ∅⟩ with
    | error e =>
        rcases w.run_error hpre with rfl | hpass
        · rfl
        · rw [hpasses] at hpass
          cases hpass
    | ok s =>
        obtain ⟨-, hleft⟩ := w.run_ok hpre
        cases ev with
        | file captured => exact hcyclic.elim
        | directory path real within readable =>
            have hagain : real ∈ within ∨ real ∈ s.left :=
              hcyclic.imp_right fun hleftBehind => (hleft real).mpr (.inr hleftBehind)
            change List.foldlM (w.meet limit) s (_ :: post) = _
            rw [List.foldlM_cons, meet, if_pos hagain]
            rfl

/-! ### Directories that are reached in themselves -/

/-- **The directories that a directory is reached in** are those on the path to it. -/
theorem mem_within_iff {o : SnapshotOptions} {fs : FileSystem} {fuel : ℕ} {within : Finset Path}
    {path q real : Path} {within' : Finset Path} {readable : Bool}
    (h : .directory q real within' readable ∈ eventsAt w o fs fuel within path) :
    path <+: q ∧ ∀ c, c ∈ within' ↔
      c ∈ within ∨ ∃ p, path <+: p ∧ p <+: q ∧ p ≠ q ∧ fs.canonical p = some c := by
  induction fuel generalizing within path with
  | zero => cases h
  | succ fuel ih =>
      obtain ⟨real', hreal', heq | ⟨-, des, de, -, -, hev⟩⟩ := mem_eventsAt_succ h
      · obtain ⟨rfl, -, rfl, -⟩ := WalkEvent.directory.inj heq
        refine ⟨List.prefix_refl _, fun c => ⟨.inl, fun hc => hc.resolve_right ?_⟩⟩
        rintro ⟨p, hpath, hp, hne, -⟩
        exact hne (hp.eq_of_length (le_antisymm hp.length_le hpath.length_le))
      · obtain ⟨-, info, -, -, hbelow⟩ := directory_mem_childEvents hev
        obtain ⟨hpre, hwithin⟩ := ih hbelow
        have hpath : path <+: q := (List.prefix_append path _).trans hpre
        refine ⟨hpath, fun c => ?_⟩
        rw [hwithin, Finset.mem_insert]
        constructor
        · rintro ((rfl | hc) | ⟨p, hp, hpq, hne, hcanonical⟩)
          · refine .inr ⟨path, List.prefix_refl _, hpath, ?_, hreal'⟩
            rintro rfl
            simpa using hpre.length_le
          · exact .inl hc
          · exact .inr ⟨p, (List.prefix_append path _).trans hp, hpq, hne, hcanonical⟩
        · rintro (hc | ⟨p, hp, hpq, hne, hcanonical⟩)
          · exact .inl (.inr hc)
          · by_cases hsame : p = path
            · subst hsame
              exact .inl (.inl (Option.some.inj (hcanonical.symm.trans hreal')))
            · refine .inr ⟨p, List.prefix_of_prefix_length_le hpre hpq ?_, hpq, hne, hcanonical⟩
              have hlt : path.length < p.length := lt_of_le_of_ne hp.length_le fun hlen =>
                hsame (hp.eq_of_length hlen).symm
              simpa using hlt

/-! ### Captures -/

/-- A file system with finitely many directories, each of which has a canonical path. -/
structure FileSystem.IsFinite (fs : FileSystem) : Prop where
  finite : {c | ∃ p, fs.canonical p = some c}.Finite
  canonical : ∀ {p info}, fs.stat p = some info → info.kind = .directory →
    ∃ c, fs.canonical p = some c

/-- As much fuel as any walk needs. -/
noncomputable def FileSystem.bound (fs : FileSystem) : ℕ :=
  {c | ∃ p, fs.canonical p = some c}.ncard + 1

section Claims

variable (blake3 : Bytes → Hash) (w : Walker) (o : SnapshotOptions) (fs : FileSystem)

/-- What a capture reaches, in order, if nothing ends it. -/
noncomputable def reached : List WalkEvent :=
  if (fs.stat []).any fun info => info.kind = .directory then eventsAt w o fs fs.bound ∅ []
  else []

/-- **A directory is reached again inside its own subtree**, before the limit is passed: a path
above it leads to the same directory. -/
def ReachedAgain : Prop :=
  ∃ pre path real within readable post,
    reached w o fs = pre ++ .directory path real within readable :: post ∧
      Node.passes o.maxFiles 0 (filesOf pre) = false ∧
      ∃ p, p <+: path ∧ p ≠ path ∧ fs.canonical p = some real

/-- A directory that could not be read is reached a second time, before the limit is passed. -/
def RepeatsUnreadable : Prop :=
  ∃ pre path real within readable post,
    reached w o fs = pre ++ .directory path real within readable :: post ∧
      Node.passes o.maxFiles 0 (filesOf pre) = false ∧
      ∃ path' within', .directory path' real within' false ∈ pre

/-- **Each directory that is reached is captured**, as often as it is reached: its tree object is
in the snapshot, and that of the directory in which it is reached has an entry for it. -/
def CapturesReached (snap : Snapshot) : Prop :=
  ∀ path real within, .directory path real within true ∈ reached w o fs →
    ∃ es, treeAt blake3 w o fs (fs.bound - path.length) path = some es ∧
      blake3 (w.serializeTree es) ∈ snap.trees ∧
      (path = [] → snap.rootHash = blake3 (w.serializeTree es)) ∧
      ∀ parent name, path = parent ++ [name] → ∃ es' te,
        treeAt blake3 w o fs (fs.bound - parent.length) parent = some es' ∧ te ∈ es' ∧
          te.name = name ∧ te.kind = .directory ∧ te.hash = blake3 (w.serializeTree es)

/-- **A capture that follows links** terminates; it fails as cyclic if and only if a directory is
reached again inside its own subtree; and it captures each directory as often as it is reached. -/
def CapturesLinks : Prop :=
  ∃ r, (∀ fuel, fs.bound ≤ fuel → capture blake3 w o fs fuel = some r) ∧
    (r = .error .cyclicLink ↔ ReachedAgain w o fs) ∧
    ∀ snap, r = .ok snap → CapturesReached blake3 w o fs snap

end Claims

variable {blake3 : Bytes → Hash} {o : SnapshotOptions} {fs : FileSystem}

/-- What a snapshot has of the directories that were reached. -/
theorem capturesReached_of_gains {b : Builder} {evs : List WalkEvent} {snap : Snapshot}
    (hevs : reached w o fs = eventsAt w o fs fs.bound ∅ [])
    (hsnap : capture blake3 w o fs fs.bound = some (.ok snap))
    (hgains : Gains blake3 w o fs fs.bound Builder.new evs b)
    (hevs' : evs = eventsAt w o fs fs.bound ∅ []) (htrees : snap.trees = b.trees) :
    CapturesReached blake3 w o fs snap := by
  subst hevs'
  intro path real within hmem
  rw [hevs] at hmem
  obtain ⟨es, hes, hhash⟩ := hgains.has hmem
  refine ⟨es, hes, htrees ▸ hhash, ?_, ?_⟩
  · rintro rfl
    obtain ⟨⟨es', hes', hroot⟩, -⟩ := capture_trees hsnap
    rw [List.length_nil, Nat.sub_zero, hes'] at hes
    rw [hroot, Option.some.inj hes]
  · rintro parent name rfl
    have hentry := @exists_entry_of_mem blake3 w o fs fs.bound ∅ fs.bound [] _ _ _ rfl hmem
    rcases hentry with heq | hin
    · simp at heq
    · obtain ⟨parent', name', es', te, heq, hes', hte, hname, hkind, es'', hes'', hhash'⟩ := hin
      obtain ⟨rfl, hnames⟩ := List.append_inj' heq rfl
      obtain rfl := (List.cons.inj hnames).1
      rw [hes] at hes''
      obtain rfl := Option.some.inj hes''
      exact ⟨es', te, hes', hte, hname, hkind, hhash'⟩

/-- **Captures terminate**, and their outcome is what the machine makes of what is reached. -/
theorem exists_capture (hfs : fs.IsFinite) (hfollow : o.followSymlinks = true) :
    ∃ r, (∀ fuel, fs.bound ≤ fuel → capture blake3 w o fs fuel = some r) ∧
      (r = .error .cyclicLink ↔
        (reached w o fs).foldlM (w.meet o.maxFiles) ⟨0, ∅⟩ = .error .cyclicLink) ∧
      ∀ snap, r = .ok snap → CapturesReached blake3 w o fs snap := by
  suffices h : ∃ r, capture blake3 w o fs fs.bound = some r ∧
      (r = .error .cyclicLink ↔
        (reached w o fs).foldlM (w.meet o.maxFiles) ⟨0, ∅⟩ = .error .cyclicLink) ∧
      ∀ snap, r = .ok snap → CapturesReached blake3 w o fs snap by
    obtain ⟨r, hr, hrest⟩ := h
    exact ⟨r, fun fuel hfuel => capture_mono hfuel hr, hrest⟩
  cases hstat : fs.stat [] with
  | none =>
      have hevs : reached w o fs = [] := by simp [reached, hstat]
      refine ⟨.error .io, by rw [capture, hstat], ?_, fun snap h => by cases h⟩
      rw [hevs]
      refine iff_of_false (fun h => ?_) (fun h => ?_) <;> cases h
  | some info =>
      by_cases hdir : info.kind = .directory
      · have hevs : reached w o fs = eventsAt w o fs fs.bound ∅ [] := by
          rw [reached, hstat, Option.any_some, if_pos (decide_eq_true hdir)]
        obtain ⟨real, hreal⟩ := hfs.canonical hstat hdir
        have hlook : ∀ {p info}, look o fs p = some info → info.kind = .directory →
            ∃ real, fs.canonical p = some real := by
          intro p info hp hkind
          rw [look, if_pos hfollow] at hp
          exact hfs.canonical hp hkind
        have hcard : hfs.finite.toFinset.card < fs.bound + (∅ : Finset Path).card := by
          rw [FileSystem.bound, Set.ncard_eq_toFinset_card _ hfs.finite, Finset.card_empty]
          omega
        have hnew : Builder.new.At ∅ ⟨0, ∅⟩ := ⟨rfl, rfl, Finset.disjoint_empty_left _⟩
        have hfollows : Traces blake3 w o fs fs.bound GoesOn ∅ ⟨0, ∅⟩ Builder.new _ _ :=
          buildTree_follows hlook (fun h => hfs.finite.mem_toFinset.mpr ⟨_, h⟩) fs.bound
            (Finset.empty_subset _) hcard hreal rfl hnew
        have hcapture : capture blake3 w o fs fs.bound =
            (buildTree blake3 w o fs fs.bound [] Builder.new).map fun walk =>
              walk.1.map walk.2.snapshot := by
          rw [capture, hstat]
          exact if_neg (not_not_intro hdir)
        rw [hevs]
        cases hrun : (eventsAt w o fs fs.bound ∅ []).foldlM (w.meet o.maxFiles) ⟨0, ∅⟩ with
        | error e =>
            obtain ⟨b, hb⟩ := hfollows.ends hrun
            refine ⟨.error e, by rw [hcapture, hb]; rfl, ?_, fun snap h => by cases h⟩
            exact ⟨fun h => congrArg _ (Except.error.inj h), fun h => congrArg _ (Except.error.inj h)⟩
        | ok s =>
            obtain ⟨r, b, hr, hgoes, -, hgains⟩ := hfollows.goes hrun
            have hok : capture blake3 w o fs fs.bound = some (r.map b.snapshot) := by
              rw [hcapture, hr]
              rfl
            refine ⟨r.map b.snapshot, hok, ?_, ?_⟩
            · refine ⟨fun h => ?_, fun h => by cases h⟩
              cases r with
              | ok hash => cases h
              | error e =>
                  obtain rfl := Except.error.inj h
                  exact absurd (hgoes _ rfl) (by decide)
            · intro snap hsnap
              rw [hsnap] at hok
              cases r with
              | error e => cases hsnap
              | ok hash =>
                  obtain rfl := Except.ok.inj hsnap
                  exact capturesReached_of_gains hevs hok hgains rfl rfl
      · have hevs : reached w o fs = [] := by simp [reached, hstat, hdir]
        refine ⟨.error .other, ?_, ?_, fun snap h => by cases h⟩
        · rw [capture, hstat]
          exact if_pos hdir
        · rw [hevs]
          refine iff_of_false (fun h => ?_) (fun h => ?_) <;> cases h

theorem mem_reached {path real : Path} {within : Finset Path} {readable : Bool}
    (h : .directory path real within readable ∈ reached w o fs) :
    real ∈ within ↔ ∃ p, p <+: path ∧ p ≠ path ∧ fs.canonical p = some real := by
  rw [reached] at h
  split_ifs at h
  · rw [(mem_within_iff h).2]
    simp
  · cases h

/-- **When a capture fails as cyclic**: a directory is reached again inside its own subtree, or
the mark of one that could not be read was left behind. -/
theorem cyclic_iff :
    (reached w o fs).foldlM (w.meet o.maxFiles) ⟨0, ∅⟩ = .error .cyclicLink ↔
      ReachedAgain w o fs ∨ w.unmarksFailed = false ∧ RepeatsUnreadable w o fs := by
  rw [Walker.run_cyclic_iff]
  have hmem : ∀ {pre post path real within readable},
      reached w o fs = pre ++ .directory path real within readable :: post →
        .directory path real within readable ∈ reached w o fs := by
    intro pre post path real within readable heq
    rw [heq]
    exact List.mem_append_right _ List.mem_cons_self
  constructor
  · rintro ⟨pre, ev, post, heq, hpasses, hcyclic⟩
    cases ev with
    | file captured => exact hcyclic.elim
    | directory path real within readable =>
        rcases hcyclic with hagain | ⟨hunmarks, hleft⟩
        · exact .inl ⟨pre, path, real, within, readable, post, heq, hpasses,
            (mem_reached (hmem heq)).mp hagain⟩
        · exact .inr ⟨hunmarks, pre, path, real, within, readable, post, heq, hpasses, hleft⟩
  · rintro (⟨pre, path, real, within, readable, post, heq, hpasses, hagain⟩ |
      ⟨hunmarks, pre, path, real, within, readable, post, heq, hpasses, hleft⟩)
    · exact ⟨pre, _, post, heq, hpasses, .inl ((mem_reached (hmem heq)).mpr hagain)⟩
    · exact ⟨pre, _, post, heq, hpasses, .inr ⟨hunmarks, hleft⟩⟩

/-- **When captures are right about cycles.** -/
theorem capturesLinks_iff (hfs : fs.IsFinite) (hfollow : o.followSymlinks = true) :
    CapturesLinks blake3 w o fs ↔
      (w.unmarksFailed = false → RepeatsUnreadable w o fs → ReachedAgain w o fs) := by
  obtain ⟨r, hr, hcyclic, hreached⟩ := @exists_capture w blake3 o fs hfs hfollow
  rw [cyclic_iff] at hcyclic
  constructor
  · rintro ⟨r', hr', hagain, -⟩ hunmarks hrepeats
    have hsame : r' = r := Option.some.inj ((hr' _ le_rfl).symm.trans (hr _ le_rfl))
    exact hagain.mp (hsame ▸ hcyclic.mpr (.inr ⟨hunmarks, hrepeats⟩))
  · intro h
    exact ⟨r, hr, hcyclic.trans (or_iff_left_of_imp fun hleft => h hleft.1 hleft.2), hreached⟩

/-- **Captures that follow links** terminate. Those of the Go client are right about cycles; those
of the Rust client are if and only if no directory that could not be read is reached a second
time, or there is a cycle as well. -/
theorem symlink_capture (hfs : fs.IsFinite) (hfollow : o.followSymlinks = true)
    (glob : Bytes → Bytes → Bool) :
    CapturesLinks blake3 Go.walker o fs ∧
      (∃ r, ∀ fuel, fs.bound ≤ fuel → capture blake3 (Rust.walker glob) o fs fuel = some r) ∧
      (CapturesLinks blake3 (Rust.walker glob) o fs ↔
        (RepeatsUnreadable (Rust.walker glob) o fs → ReachedAgain (Rust.walker glob) o fs)) := by
  obtain ⟨r, hr, -⟩ := @exists_capture (Rust.walker glob) blake3 o fs hfs hfollow
  have hgo : CapturesLinks blake3 Go.walker o fs := by
    refine (capturesLinks_iff hfs hfollow).mpr fun h => ?_
    cases h
  refine ⟨hgo, ⟨r, hr⟩, ?_⟩
  rw [capturesLinks_iff hfs hfollow]
  exact ⟨fun h => h rfl, fun h _ => h⟩

/-! ### A directory that cannot be read, and a link to it -/

/-- The options of a capture that follows links. -/
def followOptions : SnapshotOptions := { SnapshotOptions.default with followSymlinks := true }

/-- A directory `a` that cannot be read, and a link `l` to it. -/
def lockedTwice : FileSystem where
  canonical p := if p = [] then some [] else if p = [[97]] ∨ p = [[108]] then some [[97]] else none
  readDir p := if p = [] then some [⟨[97], true⟩, ⟨[108], false⟩] else none
  stat p := if p = [] ∨ p = [[97]] ∨ p = [[108]] then some ⟨.directory, 0o755, 0⟩ else none
  lstat p := if p = [[108]] then some ⟨.symlink, 0o777, 1⟩
    else if p = [] ∨ p = [[97]] then some ⟨.directory, 0o755, 0⟩ else none
  readLink p := if p = [[108]] then some [97] else none
  readFile _ := none
  stat_follows := by
    intro p info h
    split_ifs at h
    rw [← Option.some.inj h]
    simp

theorem lockedTwice_canonical : {c | ∃ p, lockedTwice.canonical p = some c} = {[], [[97]]} := by
  ext c
  constructor
  · rintro ⟨p, hp⟩
    rw [lockedTwice] at hp
    dsimp only at hp
    split_ifs at hp
    · exact Or.inl (Option.some.inj hp).symm
    · exact Or.inr (Option.some.inj hp).symm
  · rintro (rfl | rfl)
    · exact ⟨[], rfl⟩
    · exact ⟨[[97]], rfl⟩

theorem lockedTwice_isFinite : lockedTwice.IsFinite where
  finite := by
    rw [lockedTwice_canonical]
    exact Set.toFinite _
  canonical := by
    intro p info h _
    simp only [lockedTwice] at h ⊢
    split_ifs at h with hp
    rcases hp with rfl | rfl | rfl
    · exact ⟨_, rfl⟩
    · exact ⟨_, rfl⟩
    · exact ⟨_, rfl⟩

/-- The theorem holds of this file system: the Go client is right about it. -/
theorem symlink_capture_lockedTwice : CapturesLinks headDigest Go.walker followOptions lockedTwice :=
  (symlink_capture lockedTwice_isFinite rfl fun _ _ => false).1

theorem lockedTwice_reached :
    reached (Rust.walker fun _ _ => false) followOptions lockedTwice =
      [.directory [] [] ∅ true, .directory [[97]] [[97]] {[]} false,
        .directory [[108]] [[97]] {[]} false] := by
  have hbound : lockedTwice.bound = 3 := by
    rw [FileSystem.bound, lockedTwice_canonical, Set.ncard_pair (by simp)]
  rw [reached, hbound]
  decide

/-- **A directory that cannot be read is taken for a cycle**: the capture of the Rust client fails,
and no directory is reached again inside its own subtree. -/
theorem unreadable_is_cyclic :
    capture headDigest (Rust.walker fun _ _ => false) followOptions lockedTwice 3 =
      some (.error .cyclicLink) ∧
    ¬ReachedAgain (Rust.walker fun _ _ => false) followOptions lockedTwice ∧
    ¬CapturesLinks headDigest (Rust.walker fun _ _ => false) followOptions lockedTwice := by
  have hnot : ¬ReachedAgain (Rust.walker fun _ _ => false) followOptions lockedTwice := by
    rintro ⟨pre, path, real, within, readable, post, heq, -, hagain⟩
    have hmem : .directory path real within readable ∈
        reached (Rust.walker fun _ _ => false) followOptions lockedTwice := by
      rw [heq]
      exact List.mem_append_right _ List.mem_cons_self
    have hwithin := (mem_reached hmem).mpr hagain
    rw [lockedTwice_reached] at hmem
    simp only [List.mem_cons, List.not_mem_nil, or_false, WalkEvent.directory.injEq] at hmem
    rcases hmem with ⟨-, rfl, rfl, -⟩ | ⟨-, rfl, rfl, -⟩ | ⟨-, rfl, rfl, -⟩
    · exact absurd hwithin (by simp)
    · exact absurd hwithin (by simp)
    · exact absurd hwithin (by simp)
  refine ⟨rfl, hnot, fun h => ?_⟩
  refine hnot ((capturesLinks_iff lockedTwice_isFinite rfl).mp h rfl ?_)
  exact ⟨[.directory [] [] ∅ true, .directory [[97]] [[97]] {[]} false], [[108]], [[97]], {[]},
    false, [], lockedTwice_reached, rfl, [[97]], {[]}, by simp⟩

end Cxdb
