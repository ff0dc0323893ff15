import Cxdb.SizeMirror
import Cxdb.StoreFaults

/-!
# The Copy in the Bucket

`s3_sync.rs`: while the server runs, a task copies six files of the data directory to a bucket,
those that have grown since it last copied them. The task starts before the stores are opened,
and its steps come between the writes of calls and of the opening.

A call in progress is the state that it will leave; until it is done its bytes come into the
files, one file after the other or not at all when the process stops. The opening cuts the logs
and writes `turns.idx` anew, in the order in which a `HashMap` gives its keys. The bundles of the
registry and the manifest, which a round uploads as well, are not among the six files: what they
have to do with them is whether the sizes are remembered.

## Main results

* `StoreCall.run_grows`: a call only appends to files.
* `MirrorSystem.run_of_act`: the steps of the store are runs of this system.
* `MirrorSystem.doSync_run`: a quiet round is a run of it.
* `quiet_round_mirrors`: after a quiet round the copies are the files, in every run in which no
  opening takes away what has been copied.
* `cut_head_stays_copied`: a record that has been copied and cut off stays in the copy.
-/

open ByteFormat FaultyDisk RecordLog Transition SizeMirror

namespace Cxdb

/-! ### The system -/

/-- `SYNC_FILES`. -/
def syncFiles : List DataFile :=
  [.blobsPack, .blobsIdx, .turnsLog, .turnsIdx, .turnsMeta, .headsTbl]

/-- All files of the stores. -/
def dataFiles : List DataFile := .rootsIdx :: syncFiles

theorem mem_dataFiles (file : DataFile) : file ∈ dataFiles := by cases file <;> decide

/-- What `rebuild_index` writes when the map gives its keys in this order. -/
def indexBytes (turnIndex : HashMap UInt64 UInt64) (turnIds : List UInt64) : Bytes :=
  turnIds.flatMap fun turnId =>
    u64Bytes turnId ++ u64Bytes ((turnIndex.lookup turnId).getD 0)

/-- `Store::open` when the map of turns gives its keys in this order. -/
def Stores.openInOrder (turnIds : List UInt64) (d : DataDir) : Option (Stores × DataDir) :=
  match Stores.openDir d with
  | .ok (s, d') =>
      if turnIds.Perm (LastWrite.sortedKeys s.turnStore.turnIndex) then
        some (s, Function.update d' .turnsIdx (indexBytes s.turnStore.turnIndex turnIds))
      else none
  | .error _ => none

/-- The store with its directory, what the call or the opening that goes on will leave of both,
and the copies in the bucket. -/
structure MirrorSystem where
  proc : Option Stores
  disk : DataDir
  writing : Option (Stores × DataDir)
  copies : Copies DataFile

/-- An empty directory, and a bucket without copies. -/
def MirrorSystem.initial : MirrorSystem where
  proc := none
  disk := DataDir.empty
  writing := none
  copies := .empty

/-- What can happen. An opening comes with the order of `turns.idx`, a call with the fault that
it meets, if any. -/
inductive MirrorEvent where
  | opening (turnIds : List UInt64)
  | call (c : StoreCall) (now : UInt64) (fault : Option (Fault DataFile))
  | cut (file : DataFile)
  | grow (file : DataFile) (length : ℕ)
  | done
  | stop
  | sync (e : SyncEvent)

/-- What an opening first makes of a file: `rebuild_index` empties the index before it writes
it, the other loaders cut off the tail that they cannot read. -/
def cutTo (d : DataDir) (file : DataFile) : Bytes :=
  if file = .turnsIdx then [] else d file

theorem cutTo_isPrefix (d : DataDir) (file : DataFile) : cutTo d file <+: d file := by
  rw [cutTo]
  split_ifs
  · exact List.nil_prefix
  · exact List.prefix_refl _

namespace MirrorSystem

/-- One step, if it can happen. -/
def act (z : Zstd) (blake3 : Bytes → Hash) (m : MirrorSystem) :
    MirrorEvent → Option MirrorSystem
  | .opening turnIds =>
      match m.proc, m.writing with
      | none, none =>
          (Stores.openInOrder turnIds m.disk).map fun w => { m with writing := some w }
      | _, _ => none
  | .call c now fault =>
      match m.proc, m.writing with
      | some s, none =>
          let o := runCall (c.run z blake3 now) s m.disk fault
          if DataDir.Fits o.2.2 then some { m with writing := some (o.2.1, o.2.2) } else none
      | _, _ => none
  | .cut file =>
      match m.proc, m.writing with
      | none, some (_, d) => some { m with disk := Function.update m.disk file (cutTo d file) }
      | _, _ => none
  | .grow file length =>
      match m.writing with
      | some (_, d) =>
          if m.disk file <+: d file ∧ (m.disk file).length ≤ length then
            some { m with disk := Function.update m.disk file ((d file).take length) }
          else none
      | none => none
  | .done =>
      match m.writing with
      | some (s, d) =>
          if ∀ file ∈ dataFiles, m.disk file = d file then
            some { m with proc := some s, writing := none }
          else none
      | none => none
  | .stop =>
      some { m with proc := none, writing := none, copies := { m.copies with round := none } }
  | .sync e => (m.copies.act syncFiles m.disk e).map fun copies => { m with copies }

/-- A round of `do_sync` while nothing is written and nothing fails. -/
def doSync (m : MirrorSystem) : MirrorSystem :=
  { m with copies := m.copies.doRound syncFiles m.disk }

/-- No opening takes away what has been copied. What it cuts a file to, or writes it anew as,
begins with the copy; a file is not cut below a size that the task has just compared; and the
process does not stop while a copied part of a file is still to be written again. -/
def KeepsUploaded (m : MirrorSystem) : MirrorEvent → Prop
  | .cut file => ∀ w ∈ m.writing, m.copies.Kept file (cutTo w.2 file) (w.2 file)
  | .stop => ∀ file ∈ dataFiles, m.copies.copy file <+: m.disk file
  | _ => True

instance (m : MirrorSystem) : DecidablePred m.KeepsUploaded := fun
  | .cut _ => inferInstanceAs (Decidable (∀ w ∈ m.writing, _))
  | .stop => inferInstanceAs (Decidable (∀ file ∈ dataFiles, m.copies.copy file <+: m.disk file))
  | .opening _ | .call _ _ _ | .grow _ _ | .done | .sync _ => inferInstanceAs (Decidable True)

end MirrorSystem

/-! ### Calls append -/

theorem Grows.liftExcept {μ α : Type} (x : Except StoreError α) :
    Grows (liftExcept x : StoreM μ α) := by
  intro w file
  cases x <;> exact List.prefix_refl _

theorem writeHead_grows (head : ContextHead) : Grows (writeHead head) :=
  (Grows.seekEnd _).bind fun _ => Grows.appendRecord _ _ _

theorem createContext_grows (base now : UInt64) : Grows (createContext base now) :=
  Grows.getMem.bind fun _ => (Grows.liftExcept _).bind fun _ => (Grows.modifyMem _).bind fun _ =>
    (writeHead_grows _).bind fun _ => (Grows.modifyMem _).bind fun _ => Grows.pure _

theorem appendTurn_grows (a : AppendArgs) (now : UInt64) : Grows (appendTurn a now) :=
  Grows.getMem.bind fun _ => (Grows.liftExcept _).bind fun _ => (Grows.modifyMem _).bind fun _ =>
    (Grows.seekEnd _).bind fun _ => (Grows.appendRecord _ _ _).bind fun _ =>
    (Grows.seekEnd _).bind fun _ => (Grows.appendRecord _ _ _).bind fun _ =>
    (Grows.seekEnd _).bind fun _ => (Grows.appendRecord _ _ _).bind fun _ =>
    (Grows.modifyMem _).bind fun _ => (writeHead_grows _).bind fun _ =>
    (Grows.modifyMem _).bind fun _ => Grows.pure _

theorem putIfAbsent_grows (z : Zstd) (hash : Hash) (raw : Bytes) :
    Grows (putIfAbsent z hash raw) := by
  refine Grows.getMem.bind fun s => ?_
  cases s.index.lookup hash with
  | some entry => exact Grows.pure _
  | none =>
      exact (Grows.seekEnd _).bind fun _ => (Grows.writeAll _ _ _).bind fun _ =>
        (Grows.writeAll _ _ _).bind fun _ => (Grows.writeAll _ _ _).bind fun _ =>
        (Grows.syncAll _ _).bind fun _ => (Grows.seekEnd _).bind fun _ =>
        (Grows.appendRecord _ _ _).bind fun _ => (Grows.modifyMem _).bind fun _ => Grows.pure _

theorem attach_grows (turnId : UInt64) (fsRootHash : Hash) : Grows (attach turnId fsRootHash) :=
  (Grows.seekEnd _).bind fun _ => (Grows.writeAll _ _ _).bind fun _ => Grows.modifyMem _

/-- **A call only appends to files.** -/
theorem StoreCall.run_grows (z : Zstd) (blake3 : Bytes → Hash) (now : UInt64) (c : StoreCall) :
    Grows (c.run z blake3 now) := by
  have hcreate : ∀ base, Grows (onTurns (Cxdb.createContext base now)) := fun base =>
    Grows.zoom (createContext_grows base now)
  cases c with
  | createContext base => exact (hcreate base).map StoreReply.context
  | forkContext base => exact (hcreate base).map StoreReply.context
  | appendTurn r =>
      exact ((Grows.liftExcept _).bind fun _ => (Grows.zoom (putIfAbsent_grows z _ _)).bind
        fun _ => Grows.zoom (appendTurn_grows _ _)).map _
  | putBlob hash data =>
      rw [StoreCall.run, Stores.putBlob]
      split_ifs
      · exact Grows.liftExcept _
      · exact Grows.getMem.bind fun _ =>
          (Grows.zoom (putIfAbsent_grows z hash data)).bind fun _ => Grows.pure _
  | attachFs turnId fsRootHash =>
      refine Grows.map _ (Grows.getMem.bind fun s => (Grows.liftExcept _).bind fun _ => ?_)
      split_ifs
      · exact Grows.zoom (attach_grows _ _)
      · exact Grows.liftExcept _

/-! ### What lasts -/

namespace MirrorSystem

variable {z : Zstd} {blake3 : Bytes → Hash} {m m' : MirrorSystem} {e : MirrorEvent}

/-- What the files will be when the opening that goes on is done. -/
def goal (m : MirrorSystem) : Option DataDir :=
  match m.proc with
  | none => m.writing.map Prod.snd
  | some _ => none

/-- **A step** that keeps what has been copied keeps the copies following the files. -/
theorem follows_step (h : m.copies.Follows m.disk m.goal) (hkeeps : m.KeepsUploaded e)
    (hs : m.act z blake3 e = some m') : m'.copies.Follows m'.disk m'.goal := by
  obtain ⟨proc, disk, writing, copies⟩ := m
  cases e with
  | opening turnIds =>
      rcases proc with _ | s <;> rcases writing with _ | w
      case opening.none.none =>
        obtain ⟨w, -, rfl⟩ := Option.map_eq_some_iff.mp hs
        refine h.settle _ ?_
        rintro f version (hl | ⟨g, hg, -⟩)
        · exact hl
        · cases hg
      all_goals cases hs
  | call c now fault =>
      rcases proc with _ | s <;> rcases writing with _ | w
      case call.some.none =>
        simp only [act] at hs
        split_ifs at hs
        obtain rfl := Option.some.inj hs
        exact h
      all_goals cases hs
  | cut file =>
      rcases proc with _ | s <;> rcases writing with _ | ⟨s', d⟩
      case cut.none.some =>
        obtain rfl := Option.some.inj hs
        exact Copies.Follows.rewrite h (cutTo_isPrefix d file) (hkeeps (s', d) rfl)
      all_goals cases hs
  | grow file length =>
      rcases writing with _ | ⟨s', d⟩
      · cases hs
      simp only [act] at hs
      split_ifs at hs with hgrow
      obtain rfl := Option.some.inj hs
      obtain ⟨hpre, hle⟩ := hgrow
      have htake : disk file <+: (d file).take length :=
        (List.take_of_length_le hle ▸ hpre.take length)
      refine Copies.Follows.grow h (fun f => ?_) fun g hg f hf => ?_
      · by_cases hf : f = file
        · subst hf
          simpa using htake
        · simp [Function.update_of_ne hf]
      · by_cases hfile : f = file
        · subst hfile
          -- only an opening has a goal, and it is what is written
          rcases proc with _ | s
          · obtain rfl := Option.some.inj hg
            simpa using List.take_prefix _ _
          · cases hg
        · simpa [Function.update_of_ne hfile] using hf
  | done =>
      rcases writing with _ | ⟨s', d⟩
      · cases hs
      simp only [act] at hs
      split_ifs at hs with hdone
      obtain rfl := Option.some.inj hs
      refine Copies.Follows.settle h _ ?_
      rintro f version (hl | ⟨g, hg, -, hl⟩)
      · exact hl
      · rcases proc with _ | s
        · obtain rfl := Option.some.inj hg
          change version <+: disk f
          rw [hdone f (mem_dataFiles f)]
          exact hl
        · cases hg
  | stop =>
      obtain rfl := Option.some.inj hs
      exact ⟨fun f => .inl (hkeeps f (mem_dataFiles f)), h.nonempty, h.saved, nofun⟩
  | sync e =>
      obtain ⟨copies', hact, rfl⟩ := Option.map_eq_some_iff.mp hs
      exact h.act hact

/-! ### Runs -/

/-- The steps of the copying task are steps of the system. -/
theorem sync_run {es : List SyncEvent} {copies : Copies DataFile}
    (h : Run (Steps fun c => Copies.act syncFiles m.disk c) m.copies es copies) :
    Run (Steps (act z blake3)) m (es.map .sync) { m with copies } := by
  induction h with
  | start => exact .start
  | next _ hs ih =>
      rw [List.map_append]
      exact ih.next (Option.map_eq_some_iff.mpr ⟨_, hs, rfl⟩)

/-- **A quiet round**, step by step. -/
theorem doSync_run (hround : m.copies.round = none) :
    ∃ es : List SyncEvent, Run (Steps (act z blake3)) m (es.map .sync) m.doSync :=
  ⟨_, sync_run (doRound_run syncFiles m.disk m.copies hround)⟩

/-- The same step for each file, one after the other. -/
theorem files_run (ev : DataFile → MirrorEvent) {g : DataDir}
    (hev : ∀ (disk : DataDir) file, disk file = m.disk file ∨ disk file = g file →
      act z blake3 { m with disk } (ev file) =
        some { m with disk := Function.update disk file (g file) }) :
    ∃ es, Run (Steps (act z blake3)) m es { m with disk := g } := by
  have hfiles : ∀ files : List DataFile, ∃ es, Run (Steps (act z blake3)) m es
      { m with disk := fun file => if file ∈ files then g file else m.disk file } := by
    intro files
    induction files using List.reverseRecOn with
    | nil => exact ⟨[], .start⟩
    | append_singleton files file ih =>
        obtain ⟨es, hrun⟩ := ih
        have hstep := hev (fun file => if file ∈ files then g file else m.disk file) file
          (by by_cases hf : file ∈ files <;> simp [hf])
        refine ⟨_, hrun.next (hstep.trans ?_)⟩
        congr 2
        funext f
        by_cases hf : f = file
        · subst hf
          simp
        · simp [hf]
  obtain ⟨es, hrun⟩ := hfiles dataFiles
  simp only [mem_dataFiles, if_true] at hrun
  exact ⟨es, hrun⟩

/-- The bytes of a call or of an opening come into the files, which begin the goal. -/
theorem grow_run {s : Stores} {d : DataDir} (hwriting : m.writing = some (s, d))
    (hpre : ∀ file, m.disk file <+: d file) :
    ∃ es, Run (Steps (act z blake3)) m es { m with disk := d } := by
  refine files_run (fun file => .grow file (d file).length) fun disk file hdisk => ?_
  have hfile : disk file <+: d file := by
    rcases hdisk with h | h
    · exact h ▸ hpre file
    · exact h ▸ List.prefix_refl _
  simp only [act, hwriting, if_pos (And.intro hfile hfile.length_le), List.take_length]

end MirrorSystem

theorem turnsIdx_of_openDir {d d' : DataDir} {s : TurnStore}
    (h : TurnStore.openDir d = .ok (s, d')) : d' .turnsIdx = rebuildIndex s.turnIndex := by
  simp only [TurnStore.openDir, bind, Except.bind] at h
  split at h
  · cases h
  split at h
  · cases h
  split at h
  · cases h
  obtain ⟨rfl, rfl⟩ := Prod.mk.inj (Except.ok.inj h)
  rfl

/-- The order of `turns.idx` that the model of the opening has. -/
theorem Stores.openInOrder_sorted {d d' : DataDir} {s : Stores}
    (h : Stores.openDir d = .ok (s, d')) :
    Stores.openInOrder (LastWrite.sortedKeys s.turnStore.turnIndex) d = some (s, d') := by
  have hidx : d' .turnsIdx = rebuildIndex s.turnStore.turnIndex :=
    (d'.only_of_mem (by decide)).symm.trans (turnsIdx_of_openDir (Stores.openDir_ok h).2)
  simp only [Stores.openInOrder, h, List.Perm.refl, if_true]
  rw [show indexBytes s.turnStore.turnIndex (LastWrite.sortedKeys s.turnStore.turnIndex) =
    d' .turnsIdx from hidx.symm, Function.update_eq_self]

namespace MirrorSystem

variable {z : Zstd} {blake3 : Bytes → Hash} {m m' : MirrorSystem} {e : MirrorEvent}

/-- **The steps of the store** are runs of this system, which leave the copies alone. -/
theorem run_of_act {a : StoreAct} {n : StoreSystem} (hwriting : m.writing = none)
    (h : StoreSystem.act z blake3 ⟨m.proc, m.disk⟩ a = some n) :
    ∃ es m', Run (Steps (act z blake3)) m es m' ∧ (⟨m'.proc, m'.disk⟩ : StoreSystem) = n ∧
      m'.writing = none ∧ m'.copies.remote = m.copies.remote ∧
        m'.copies.saved = m.copies.saved := by
  obtain ⟨proc, disk, writing, copies⟩ := m
  obtain rfl : writing = none := hwriting
  cases a with
  | opening =>
      simp only [StoreSystem.act] at h
      split at h
      · cases h
      next s d hopen =>
      obtain rfl := Option.some.inj h
      have hstop : Run (Steps (act z blake3)) ⟨proc, disk, none, copies⟩ [.stop]
          ⟨none, disk, none, { copies with round := none }⟩ := .single rfl
      have hopening : Steps (act z blake3) ⟨none, disk, none, { copies with round := none }⟩
          (.opening (LastWrite.sortedKeys s.turnStore.turnIndex))
          ⟨none, disk, some (s, d), { copies with round := none }⟩ := by
        simp only [Steps, act, Stores.openInOrder_sorted hopen, Option.map_some]
      obtain ⟨es, hcut⟩ : ∃ es, Run (Steps (act z blake3))
          ⟨none, disk, some (s, d), { copies with round := none }⟩ es
          ⟨none, cutTo d, some (s, d), { copies with round := none }⟩ :=
        files_run .cut fun _ _ _ => rfl
      obtain ⟨es', hgrow⟩ : ∃ es, Run (Steps (act z blake3))
          ⟨none, cutTo d, some (s, d), { copies with round := none }⟩ es
          ⟨none, d, some (s, d), { copies with round := none }⟩ :=
        grow_run rfl (cutTo_isPrefix d)
      have hdone : Steps (act z blake3) ⟨none, d, some (s, d), { copies with round := none }⟩
          .done ⟨some s, d, none, { copies with round := none }⟩ := by
        simp [Steps, act]
      exact ⟨_, _, (((hstop.next hopening).append hcut).append hgrow).next hdone, rfl, rfl, rfl,
        rfl⟩
  | call c now fault dies =>
      obtain ⟨s, rfl, h⟩ := Option.bind_eq_some_iff.mp h
      have hpre := (c.run_grows z blake3 now).runCall s disk fault
      cases hrun : runCall (c.run z blake3 now) s disk fault with
      | mk x o =>
      obtain ⟨s', d⟩ := o
      rw [hrun] at h hpre
      dsimp only at h hpre
      split_ifs at h with hfits hdies
      all_goals obtain rfl := Option.some.inj h
      all_goals
        have hcall : Run (Steps (act z blake3)) ⟨some s, disk, none, copies⟩
            [.call c now fault] ⟨some s, disk, some (s', d), copies⟩ :=
          .single (by simp only [Steps, act, hrun, if_pos hfits])
        obtain ⟨es, hgrow⟩ : ∃ es, Run (Steps (act z blake3))
            ⟨some s, disk, some (s', d), copies⟩ es ⟨some s, d, some (s', d), copies⟩ :=
          grow_run rfl hpre
      · exact ⟨_, ⟨none, d, none, { copies with round := none }⟩,
          (hcall.append hgrow).next (e := .stop) (by simp only [Steps, act]), rfl, rfl, rfl, rfl⟩
      · exact ⟨_, ⟨some s', d, none, copies⟩,
          (hcall.append hgrow).next (e := .done) (by simp [Steps, act]), rfl, rfl, rfl, rfl⟩

end MirrorSystem

/-- **After a quiet round the copies are the files**, in every run in which no opening takes away
what has been copied: a round while nothing is written and nothing fails leaves, of every tracked
file, a copy with the content of the file; an empty file has no copy. -/
theorem quiet_round_mirrors (z : Zstd) (blake3 : Bytes → Hash) (es : List MirrorEvent)
    (m : MirrorSystem)
    (h : Run (Guarded MirrorSystem.KeepsUploaded (Steps (MirrorSystem.act z blake3))) .initial
      es m) (hquiet : m.writing = none) :
    ∀ file ∈ syncFiles, m.doSync.copies.remote file =
      if m.disk file = [] then none else some (m.disk file) := by
  have hfollows : m.copies.Follows m.disk m.goal :=
    h.invariant (I := fun _ m => m.copies.Follows m.disk m.goal) (Copies.Follows.empty _ _)
      fun _ _ _ _ hI hs => MirrorSystem.follows_step hI hs.1 hs.2
  have hgoal : m.goal = none := by
    rw [MirrorSystem.goal, hquiet]
    split <;> rfl
  rw [hgoal] at hfollows
  exact fun file hfile => hfollows.doRound hfile

/-- The steps of a round over files of which only the heads have grown. -/
def headsRound : List MirrorEvent :=
  [.sync .begin, .sync .check, .sync .check, .sync .check, .sync .check, .sync .check,
    .sync .check, .sync .read, .sync (.send .stored), .sync (.finish .saved)]

/-- A context is created and its head copied; the head of another one is cut off by a crash, and
by the next opening, which comes before the next round. -/
def cutBeforeRound : List MirrorEvent :=
  [.opening [], .done, .call (.createContext 0) 5 none, .grow .headsTbl 36, .done] ++
    headsRound ++
    [.call (.createContext 0) 6 none, .grow .headsTbl 46, .stop, .opening [], .cut .headsTbl, .done]

set_option maxRecDepth 10000 in
/-- The copy of the heads after the next round. -/
theorem quiet_round_mirrors_cutBeforeRound :
    ∃ m, Run (Guarded MirrorSystem.KeepsUploaded
        (Steps (MirrorSystem.act rawBlockZstd fun _ => emptyHash))) .initial cutBeforeRound m ∧
      (m.disk .headsTbl).length = 36 ∧
      m.doSync.copies.remote .headsTbl = some (m.disk .headsTbl) := by
  obtain ⟨m, hrun, hquiet, hlen⟩ := exists_run_of_foldlM MirrorSystem.KeepsUploaded
    (MirrorSystem.act rawBlockZstd fun _ => emptyHash) .initial cutBeforeRound
    (fun m => m.writing.isNone = true ∧ (m.disk .headsTbl).length = 36) (by decide)
  refine ⟨m, hrun, hlen, ?_⟩
  rw [quiet_round_mirrors rawBlockZstd (fun _ => emptyHash) cutBeforeRound m hrun
    (Option.isNone_iff_eq_none.mp hquiet) .headsTbl (by decide)]
  exact if_neg fun h => by simp [h] at hlen

/-- The same, but a round comes before the opening and copies the part of the second head. -/
def copiedBeforeCut : List MirrorEvent :=
  [.opening [], .done, .call (.createContext 0) 5 none, .grow .headsTbl 36, .done,
    .call (.createContext 0) 6 none, .grow .headsTbl 46, .stop] ++
    headsRound ++ [.opening [], .cut .headsTbl, .done]

set_option maxRecDepth 10000 in
/-- **What has been copied and cut off stays in the copy.** The file is shorter than the size
that is remembered for it, so that the next round leaves it alone. -/
theorem cut_head_stays_copied :
    ∃ m, Run (Steps (MirrorSystem.act rawBlockZstd fun _ => emptyHash)) .initial copiedBeforeCut
        m ∧
      m.writing.isNone = true ∧ m.copies.round.isNone = true ∧
      (m.disk .headsTbl).length = 36 ∧
      (m.doSync.copies.remote .headsTbl).map List.length = some 46 := by
  obtain ⟨m, hrun, hm⟩ := exists_run_of_foldlM (fun _ _ => True)
    (MirrorSystem.act rawBlockZstd fun _ => emptyHash) .initial copiedBeforeCut
    (fun m => m.writing.isNone = true ∧ m.copies.round.isNone = true ∧
      (m.disk .headsTbl).length = 36 ∧
      (m.doSync.copies.remote .headsTbl).map List.length = some 46) (by decide)
  exact ⟨m, hrun.of_guarded, hm⟩

end Cxdb
