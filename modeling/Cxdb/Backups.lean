import Cxdb.AppendedFiles
import Cxdb.Mirror
import Cxdb.StoreInvariant

/-!
# Restoring from the Bucket

`S3Sync::maybe_restore`: on a machine without data, the files that the manifest in the bucket
names are downloaded before the stores are opened. The copies were made file by file, each at its
own time, while the server wrote: what is restored is no state that the server has ever had, and
a file whose download fails is missing.

What can be said of it is that every file begins the file of the server. The server that is
compared with the restored one is the store that the call in progress will leave.

`turns.idx` is among the files of the bucket, but opening writes it anew. The roots of snapshots
are not: `fs/roots.idx` is in no list of files to copy.

## Main results

* `MirrorSystem.backed_of_run`: the copies begin the files, in every undisturbed run.
* `MirrorSystem.backup_restores`: restoring gives a part of the server, at every moment.
* `MirrorSystem.quiet_round_restores`: after a quiet round it gives the server, without its roots.
-/

open ByteFormat FaultyDisk RecordLog LastWrite Transition SizeMirror ParentChain

namespace Cxdb

/-! ### The store in memory -/

/-- Memory, log, metadata and heads in step, and no torn record in the files. -/
structure TurnsInStep (es : List TurnEvent) (m : TurnSystem) : Prop where
  mirror : Mirror (journalOf es) m
  metas : MetaMirror (journalOf es) m
  dag : Dag (journalOf es)
  log : turnsLogFraming.Layout (m.disk .turnsLog) (journalOf es).turns []
  turnsMeta : turnsMetaFraming.Layout (m.disk .turnsMeta) (journalOf es).metas []
  heads : headsTblFraming.Layout (m.disk .headsTbl) (journalOf es).heads []

theorem TurnsInStep.initial : TurnsInStep [] TurnSystem.initial where
  mirror := Mirror.initial
  metas := MetaMirror.initial
  dag := Dag.initial
  log := Framing.layout_nil
  turnsMeta := Framing.layout_nil
  heads := Framing.layout_nil

/-- After a quiet step there is a process. -/
theorem TurnStep.proc_ne_none {m m' : TurnSystem} {e : TurnEvent} (hs : TurnStep m e m')
    (hq : e.Quiet) : m'.proc ≠ none := by
  rcases hs.cases with ⟨-, s, d', -, rfl⟩ | ⟨c, now, err, s, -, hproc, -, rfl⟩ |
    ⟨c, now, w, stop, s, hw, -, -, -, -, -, hproc'⟩
  · exact Option.some_ne_none s
  · rw [hproc]
    exact Option.some_ne_none s
  · obtain ⟨-, c', now', rfl⟩ := hq.write hw
    rw [hproc']
    exact Option.some_ne_none _

/-- **A quiet step** keeps the turn store in step. -/
theorem TurnsInStep.step {es : List TurnEvent} {m m' : TurnSystem} {e : TurnEvent}
    (h : TurnsInStep es m) (hs : TurnStep m e m') (hq : e.Quiet) (hfits : e.TypeIdFits) :
    TurnsInStep (es ++ [e]) m' := by
  have hmir := h.mirror.step hs hq.noFailure fun _ _ _ => h.heads.unread
  have hmeta := h.metas.step h.mirror.log hs hq.noFailure (fun _ _ _ => h.turnsMeta.unread) hfits
  refine ⟨hmir, hmeta, h.dag.step hs h.mirror.log fun s hproc k r hr => ?_, ?_, ?_, ?_⟩
  · rw [(h.mirror.live s hproc).1] at hr
    exact (turnMap_lookup_inv hr).1
  · obtain ⟨tail, hlay⟩ := hmir.log.layout
    obtain rfl : tail = [] := hlay.unread.symm.trans (hmir.aligned (hs.proc_ne_none hq))
    exact hlay
  · obtain ⟨tail, hlay⟩ := hmeta.metas.layout
    obtain rfl : tail = [] :=
      hlay.unread.symm.trans (hs.settled_turnsMeta hq hfits h.turnsMeta)
    exact hlay
  · obtain ⟨tail, hlay⟩ := hmir.heads.layout
    obtain rfl : tail = [] := hlay.unread.symm.trans (hs.settled_headsTbl hq h.heads)
    exact hlay

/-- The process and the files that opening reads are all that counts. -/
theorem TurnsInStep.congr {es : List TurnEvent} {m m' : TurnSystem} (h : TurnsInStep es m)
    (hproc : m'.proc = m.proc ∨ m'.proc = none)
    (hdisk : ∀ file ∈ [DataFile.turnsLog, .turnsMeta, .headsTbl], m'.disk file = m.disk file) :
    TurnsInStep es m' := by
  have hlog := hdisk .turnsLog (by simp)
  have hmeta := hdisk .turnsMeta (by simp)
  have hheads := hdisk .headsTbl (by simp)
  have hlive : ∀ s, m'.proc = some s → m.proc = some s := by
    intro s hs
    rcases hproc with h | h
    · exact h ▸ hs
    · rw [h] at hs
      cases hs
  refine ⟨⟨⟨⟨[], hlog ▸ h.log⟩, h.mirror.log.increasing, h.mirror.log.room, fun s hs =>
    h.mirror.log.fresh s (hlive s hs)⟩, ⟨[], hheads ▸ h.heads⟩, h.mirror.ids, h.mirror.size,
    fun _ => hlog ▸ h.log.unread, fun s hs => h.mirror.live s (hlive s hs)⟩,
    ⟨⟨⟨[], hmeta ▸ h.turnsMeta⟩, h.metas.metas.increasing, h.metas.metas.ofTurn⟩, fun s hs =>
      h.metas.live s (hlive s hs)⟩, h.dag, hlog ▸ h.log, hmeta ▸ h.turnsMeta, hheads ▸ h.heads⟩

/-- The index in memory is that of the file, no torn entry is in the file, and every entry has
its record in the pack. -/
structure BlobsInStep (z : Zstd) (ls : List BlobLocation) (m : BlobSystem) : Prop where
  idx : blobsIdxFraming.Layout (m.disk .blobsIdx) (ls.map BlobLocation.indexed) []
  packed : ∀ l ∈ ls, Packed z (m.disk .blobsPack) l.indexed l.raw
  nodup : (ls.map BlobLocation.hash).Nodup
  live : ∀ s, m.proc = some s → s.index = indexMap (ls.map BlobLocation.indexed)

theorem BlobsInStep.initial {z : Zstd} : BlobsInStep z [] BlobSystem.initial where
  idx := Framing.layout_nil
  packed := nofun
  nodup := List.nodup_nil
  live := nofun

/-- Opening keeps the blob store in step. -/
theorem BlobsInStep.opened {z : Zstd} {ls : List BlobLocation} {m : BlobSystem} {s : BlobStore}
    {d' : DataDir} (h : BlobsInStep z ls m) (ho : BlobStore.openDir m.disk = .ok (s, d')) :
    BlobsInStep z ls ⟨some s, d'⟩ := by
  obtain ⟨hindex, hlay, hframe⟩ := opened_blobs h.idx ho
  refine ⟨hlay, fun l hl => ?_, h.nodup, ?_⟩
  · change Packed z (d' .blobsPack) _ _
    rw [hframe .blobsPack (by decide)]
    exact h.packed l hl
  · rintro s' hs'
    obtain rfl := Option.some.inj hs'
    exact hindex

/-- **A step without faults** keeps the blob store in step. -/
theorem BlobsInStep.step {z : Zstd} {ls : List BlobLocation} {m m' : BlobSystem} {e : BlobEvent}
    (h : BlobsInStep z ls m) (hs : BlobStep z m e m') (hq : ∀ p ∈ e.write, p.2 = none)
    (hfits : e.StoredFits z) : ∃ more, BlobsInStep z (ls ++ more) m' := by
  rcases hs.cases with ⟨rfl, s, d', ho, rfl⟩ | ⟨hash, raw, s, rfl, hproc, hmem, rfl⟩ |
    ⟨blob, stop, s, hw, hproc, habsent, hdisk, hfit, hproc'⟩
  · refine ⟨[], ?_⟩
    rw [List.append_nil]
    exact h.opened ho
  · exact ⟨[], by rwa [List.append_nil]⟩
  · obtain rfl : stop = none := hq (blob, stop) hw
    obtain ⟨tail, hlay, htail⟩ := layout_blobsIdx_put (z := z) blob (m.disk .blobsPack).length
      none h.idx fun _ => rfl
    obtain rfl := htail rfl rfl
    refine ⟨[⟨blob.1, blobEntryAt z blob.2 (m.disk .blobsPack).length, blob.2⟩], ?_, ?_, ?_, ?_⟩
    · rw [hdisk, List.map_append]
      exact hlay
    · intro l hl
      rcases List.mem_append.mp hl with hl | hl
      · rw [hdisk]
        exact (h.packed l hl).append _
      · obtain rfl := List.mem_singleton.mp hl
        exact packed_put (hfits (blob, none) hw) hdisk hfit rfl
    · rw [h.live s hproc, mem_indexMap, List.map_map] at habsent
      rw [List.map_append, List.nodup_append]
      refine ⟨h.nodup, List.nodup_singleton _, ?_⟩
      rintro a ha b hb rfl
      obtain rfl := List.mem_singleton.mp hb
      exact habsent ha
    · intro s' hs'
      rw [hproc'] at hs'
      split at hs'
      case isFalse => cases hs'
      obtain rfl := Option.some.inj hs'
      rw [List.map_append, List.map_singleton, indexMap_concat, ← h.live s hproc]
      rfl

theorem BlobsInStep.congr {z : Zstd} {ls : List BlobLocation} {m m' : BlobSystem}
    (h : BlobsInStep z ls m) (hproc : m'.proc = m.proc ∨ m'.proc = none)
    (hdisk : ∀ file ∈ blobFiles, m'.disk file = m.disk file) : BlobsInStep z ls m' := by
  refine ⟨hdisk .blobsIdx (by simp [blobFiles]) ▸ h.idx, fun l hl =>
    hdisk .blobsPack (by simp [blobFiles]) ▸ h.packed l hl, h.nodup, fun s hs => h.live s ?_⟩
  rcases hproc with hp | hp
  · exact hp ▸ hs
  · rw [hp] at hs
    cases hs

/-! ### The store and its directory -/

/-- The files that opening reads, without the roots: everything but `turns.idx`, which it writes
anew. -/
def readFiles : List DataFile := [.blobsPack, .blobsIdx, .turnsLog, .turnsMeta, .headsTbl]

theorem mem_readFiles_of_turns {file : DataFile}
    (h : file ∈ [DataFile.turnsLog, .turnsMeta, .headsTbl]) :
    file ∈ turnFiles ∧ file ∈ readFiles := by
  revert h
  cases file <;> decide

theorem mem_readFiles_of_blobs {file : DataFile} (h : file ∈ blobFiles) : file ∈ readFiles := by
  revert h
  cases file <;> decide

/-- Both stores in step with their files. -/
structure StoresInStep (z : Zstd) (es : List TurnEvent) (ls : List BlobLocation)
    (n : StoreSystem) : Prop where
  turns : TurnsInStep es n.turns
  blobs : BlobsInStep z ls n.blobs

theorem StoresInStep.initial {z : Zstd} : StoresInStep z [] [] StoreSystem.initial where
  turns := TurnsInStep.initial.congr (.inl rfl) fun _ hfile =>
    DataDir.only_of_mem _ (mem_readFiles_of_turns hfile).1
  blobs := BlobsInStep.initial.congr (.inl rfl) fun _ hfile =>
    DataDir.only_of_mem _ hfile

/-- What is not read may change, and the process may go. -/
theorem StoresInStep.congr {z : Zstd} {es : List TurnEvent} {ls : List BlobLocation}
    {n n' : StoreSystem} (h : StoresInStep z es ls n) (hproc : n'.proc = n.proc ∨ n'.proc = none)
    (hdisk : ∀ file ∈ readFiles, n'.disk file = n.disk file) : StoresInStep z es ls n' := by
  refine ⟨h.turns.congr ?_ fun file hfile => ?_, h.blobs.congr ?_ fun file hfile => ?_⟩
  · exact hproc.imp (congrArg (Option.map Stores.turnStore)) (congrArg (Option.map _))
  · obtain ⟨hturn, hread⟩ := mem_readFiles_of_turns hfile
    change n'.disk.only turnFiles file = n.disk.only turnFiles file
    rw [DataDir.only_of_mem _ hturn, DataDir.only_of_mem _ hturn]
    exact hdisk file hread
  · exact hproc.imp (congrArg (Option.map Stores.blobStore)) (congrArg (Option.map _))
  · change n'.disk.only blobFiles file = n.disk.only blobFiles file
    rw [DataDir.only_of_mem _ hfile, DataDir.only_of_mem _ hfile]
    exact hdisk file (mem_readFiles_of_blobs hfile)

/-- The blob and the type id of a call fit their length fields. -/
def StoreCall.Fits (z : Zstd) (blake3 : Bytes → Hash) (c : StoreCall) : Prop :=
  (∀ blob ∈ c.blob z blake3, blob.2.length < 2 ^ 32) ∧
    match c with
    | .appendTurn r => TypeIdFits r.declaredTypeId
    | _ => True

instance StoreCall.decidableFits (z : Zstd) (blake3 : Bytes → Hash) (c : StoreCall) :
    Decidable (c.Fits z blake3) :=
  match c with
  | .appendTurn _ => inferInstanceAs (Decidable (_ ∧ TypeIdFits _))
  | .createContext _ | .forkContext _ | .putBlob _ _ | .attachFs _ _ =>
      inferInstanceAs (Decidable (_ ∧ True))

section

variable {z : Zstd} {blake3 : Bytes → Hash} {es : List TurnEvent} {ls : List BlobLocation}

/-- What a call does to the turn store is quiet, if it meets no fault. -/
theorem turnEvent?_quiet {c : StoreCall} {s : Stores} {now : UInt64} {e : TurnEvent}
    (he : c.turnEvent? z blake3 s now none = some e) (hfits : c.Fits z blake3) :
    e.Quiet ∧ e.TypeIdFits := by
  rw [StoreCall.turnEvent?] at he
  split_ifs at he
  obtain ⟨call, hcall, he⟩ := Option.bind_eq_some_iff.mp he
  obtain ⟨w, hw, he⟩ := Option.bind_eq_some_iff.mp he
  obtain rfl := Option.some.inj he
  refine ⟨trivial, ?_⟩
  intro p hp t ht
  obtain rfl := Option.some.inj hp
  have hentry : s.turnStore.entryOf now call = .ok w := by
    cases hx : s.turnStore.entryOf now call with
    | error x => simp [hx, Except.toOption] at hw
    | ok w' =>
        rw [hx] at hw
        exact congrArg _ (Option.some.inj hw)
  cases c with
  | createContext base | forkContext base =>
      obtain rfl := Option.some.inj hcall
      obtain ⟨b, -, rfl⟩ := entryOf_create hentry
      cases ht
  | appendTurn r =>
      obtain rfl := Option.some.inj hcall
      obtain ⟨q, -, rfl⟩ := entryOf_append hentry
      obtain rfl := Option.some.inj ht
      exact hfits.2
  | putBlob | attachFs => cases hcall

/-- What a call does to the blob store meets no fault, if the call meets none. -/
theorem putEvent?_quiet {c : StoreCall} {s : Stores} {e : BlobEvent}
    (he : c.putEvent? z blake3 s none = some e) (hfits : c.Fits z blake3) :
    (∀ p ∈ e.write, p.2 = none) ∧ e.StoredFits z := by
  obtain ⟨blob, hblob, rfl⟩ := Option.map_eq_some_iff.mp he
  have hshort := hfits.1 blob hblob
  rw [BlobStore.putEvent]
  split_ifs with hmem
  · exact ⟨fun p hp => absurd hp (Option.not_mem_none p),
      fun p hp => absurd hp (Option.not_mem_none p)⟩
  · refine ⟨?_, BlobEvent.Short.storedFits ?_ z⟩ <;>
    · rintro p ⟨⟩
      first | rfl | exact hshort

/-- **A call without faults** keeps the stores in step. -/
theorem StoresInStep.call {c : StoreCall} {now : UInt64} {s s' : Stores} {d d' : DataDir}
    (h : StoresInStep z es ls ⟨some s, d⟩) (hparts : c.Parts z blake3 now none s s' d d')
    (hfits : c.Fits z blake3) :
    ∃ es' ls', StoresInStep z (es ++ es') (ls ++ ls') ⟨some s', d'⟩ := by
  obtain ⟨es', hturns⟩ : ∃ es', TurnsInStep (es ++ es')
      (StoreSystem.turns ⟨some s', d'⟩) := by
    have hcall := hparts.call
    cases he : c.turnEvent? z blake3 s now none with
    | none =>
        rw [he] at hcall
        refine ⟨[], ?_⟩
        rw [List.append_nil]
        exact (congrArg (TurnsInStep es) hcall).mpr h.turns
    | some e =>
        rw [he] at hcall
        obtain ⟨hq, hf⟩ := turnEvent?_quiet he hfits
        exact ⟨[e], h.turns.step hcall hq hf⟩
  obtain ⟨ls', hblobs⟩ : ∃ ls', BlobsInStep z (ls ++ ls')
      (StoreSystem.blobs ⟨some s', d'⟩) := by
    have hput := hparts.put
    cases he : c.putEvent? z blake3 s none with
    | none =>
        rw [he] at hput
        refine ⟨[], ?_⟩
        rw [List.append_nil]
        exact (congrArg (BlobsInStep z ls) hput).mpr h.blobs
    | some e =>
        rw [he] at hput
        obtain ⟨hq, hf⟩ := putEvent?_quiet he hfits
        exact h.blobs.step hput hq hf
  exact ⟨es', ls', hturns, hblobs⟩

/-- **Opening** keeps the stores in step, and the files that it reads. -/
theorem StoresInStep.opening {p : Option Stores} {d d' : DataDir} {s : Stores}
    (h : StoresInStep z es ls ⟨p, d⟩) (ho : Stores.openDir d = .ok (s, d')) :
    StoresInStep z (es ++ [.opened]) ls ⟨some s, d'⟩ ∧ ∀ file ∈ readFiles, d' file = d file := by
  obtain ⟨hb, ht⟩ := Stores.openDir_ok ho
  have hturns : TurnsInStep (es ++ [.opened]) (StoreSystem.turns ⟨some s, d'⟩) :=
    h.turns.step (.opened ht) trivial fun p hp => absurd hp (Option.not_mem_none p)
  have hblobs : BlobsInStep z ls (StoreSystem.blobs ⟨some s, d'⟩) := h.blobs.opened hb
  refine ⟨⟨hturns, hblobs⟩, ?_⟩
  have hj : journalOf (es ++ [.opened]) = journalOf es := journalOf_concat_of_no_write rfl
  have hsame : ∀ {α : Type} {F : Framing StoreError α} {as : List α} {file file' : Bytes},
      F.Layout file as [] → F.Layout file' as [] → file' = file := by
    intro α F as file file' hlay hlay'
    rw [hlay.eq, hlay'.eq]
  intro file hfile
  simp only [readFiles, List.mem_cons, List.not_mem_nil, or_false] at hfile
  rcases hfile with rfl | rfl | rfl | rfl | rfl
  · exact (opened_blobs h.blobs.idx hb).2.2 .blobsPack (by decide)
  · exact hsame h.blobs.idx hblobs.idx
  · exact hsame h.turns.log (hj ▸ hturns.log)
  · exact hsame h.turns.turnsMeta (hj ▸ hturns.turnsMeta)
  · exact hsame h.turns.heads (hj ▸ hturns.heads)

end

/-! ### Reading a part of the pack -/

namespace MirrorSystem

/-- What the call or the opening that goes on will leave. -/
def after (m : MirrorSystem) : StoreSystem :=
  match m.writing with
  | some (s, d) => ⟨some s, d⟩
  | none => ⟨m.proc, m.disk⟩

/-- `maybe_restore` on a machine without data: of the files that the manifest names, those that
could be downloaded. -/
def restored (m : MirrorSystem) (downloaded : List DataFile) : DataDir := fun file =>
  if file ∈ syncFiles ∧ file ∈ downloaded then m.copies.copy file else []

/-- The stores as the call or the opening that goes on will leave them, or as an opening would
find them. -/
def server (m : MirrorSystem) : Option Stores :=
  match m.after.proc with
  | some s => some s
  | none => (Stores.openDir m.disk).toOption.map Prod.fst

/-- No call meets a fault, their payloads and type ids fit their length fields, and the process
stops only between calls. -/
def Undisturbed (z : Zstd) (blake3 : Bytes → Hash) (m : MirrorSystem) : MirrorEvent → Prop
  | .call c _ fault => fault = none ∧ c.Fits z blake3
  | .stop => m.writing = none
  | _ => True

/-- What is written is in step, the files that opening reads begin it, and the copies begin the
files. -/
structure Backed (z : Zstd) (m : MirrorSystem) : Prop where
  inStep : ∃ es ls, StoresInStep z es ls m.after
  begins : ∀ file ∈ readFiles, m.disk file <+: m.after.disk file
  settled : m.proc = none → ∀ file ∈ readFiles, m.disk file = m.after.disk file
  copies : ∀ file ∈ readFiles, m.copies.Begins file (m.disk file)

variable {z : Zstd} {blake3 : Bytes → Hash} {m m' : MirrorSystem} {e : MirrorEvent}

theorem Backed.initial : Backed z initial where
  inStep := ⟨[], [], StoresInStep.initial⟩
  begins _ _ := List.prefix_refl _
  settled _ _ _ := rfl
  copies file _ := Copies.Begins.empty file _

/-- **A step** keeps the copies beginning the files, and these what is written. -/
theorem Backed.step (h : m.Backed z) (hquiet : m.Undisturbed z blake3 e)
    (hs : m.act z blake3 e = some m') : m'.Backed z := by
  obtain ⟨proc, disk, writing, copies⟩ := m
  obtain ⟨es, ls, hstep⟩ := h.inStep
  cases e with
  | opening turnIds =>
      rcases proc with _ | s <;> rcases writing with _ | w
      case opening.none.none =>
        obtain ⟨⟨s, d⟩, hopen, rfl⟩ := Option.map_eq_some_iff.mp hs
        simp only [Stores.openInOrder] at hopen
        split at hopen
        case h_2 => cases hopen
        next s' d' ho =>
        split_ifs at hopen
        obtain ⟨rfl, rfl⟩ := Prod.mk.inj (Option.some.inj hopen)
        obtain ⟨hopened, hsame⟩ := hstep.opening ho
        have hidx : ∀ file ∈ readFiles,
            Function.update d' .turnsIdx (indexBytes s'.turnStore.turnIndex turnIds) file =
              disk file := by
          intro file hfile
          rw [Function.update_of_ne (by rintro rfl; exact absurd hfile (by decide))]
          exact hsame file hfile
        refine ⟨⟨_, _, hopened.congr (.inl rfl) fun file hfile =>
          (hidx file hfile).trans (hsame file hfile).symm⟩, fun file hfile => ?_,
          fun _ file hfile => (hidx file hfile).symm, h.copies⟩
        change disk file <+: Function.update d' .turnsIdx _ file
        rw [hidx file hfile]
      all_goals cases hs
  | call c now fault =>
      rcases proc with _ | s <;> rcases writing with _ | w
      case call.some.none =>
        obtain ⟨rfl, hfits⟩ := hquiet
        have hgrows := (c.run_grows z blake3 now).runCall s disk none
        rcases hrun : runCall (c.run z blake3 now) s disk none with ⟨x, s', d'⟩
        simp only [act, hrun] at hs hgrows
        split_ifs at hs with hd
        obtain rfl := Option.some.inj hs
        obtain ⟨es', ls', hcall⟩ := hstep.call (StoreCall.run_parts hrun hd) hfits
        exact ⟨⟨_, _, hcall⟩, fun file _ => hgrows file, fun hp => (by cases hp), h.copies⟩
      all_goals cases hs
  | cut file =>
      rcases proc with _ | s <;> rcases writing with _ | ⟨s', d⟩
      case cut.none.some =>
        obtain rfl := Option.some.inj hs
        have hsame : ∀ f ∈ readFiles, Function.update disk file (cutTo d file) f = disk f := by
          intro f hf
          by_cases hfile : f = file
          · subst hfile
            rw [Function.update_self, cutTo, if_neg (by rintro rfl; exact absurd hf (by decide))]
            exact (h.settled rfl f hf).symm
          · exact Function.update_of_ne hfile _ _
        refine ⟨⟨es, ls, hstep⟩, fun f hf => ?_, fun _ f hf => ?_, fun f hf => ?_⟩
        · change Function.update disk file _ f <+: d f
          rw [hsame f hf]
          exact h.begins f hf
        · exact (hsame f hf).trans (h.settled rfl f hf)
        · change copies.Begins f (Function.update disk file _ f)
          rw [hsame f hf]
          exact h.copies f hf
      all_goals cases hs
  | grow file length =>
      rcases writing with _ | ⟨s', d⟩
      · cases hs
      simp only [act] at hs
      split_ifs at hs with hgrow
      obtain rfl := Option.some.inj hs
      obtain ⟨hpre, hle⟩ := hgrow
      have htake : disk file <+: (d file).take length :=
        (List.take_of_length_le hle ▸ hpre.take length)
      have hgrown : ∀ f, disk f <+: Function.update disk file ((d file).take length) f := by
        intro f
        by_cases hf : f = file
        · subst hf
          rwa [Function.update_self]
        · rw [Function.update_of_ne hf]
      refine ⟨⟨es, ls, hstep⟩, fun f hf => ?_, fun hproc f hf => ?_, fun f hf =>
        (h.copies f hf).grow (hgrown f)⟩
      · by_cases hfile : f = file
        · subst hfile
          change Function.update disk f _ f <+: d f
          rw [Function.update_self]
          exact List.take_prefix _ _
        · change Function.update disk file _ f <+: d f
          rw [Function.update_of_ne hfile]
          exact h.begins f hf
      · have hdone : disk f = d f := h.settled hproc f hf
        by_cases hfile : f = file
        · subst hfile
          change Function.update disk f _ f = d f
          rw [Function.update_self, List.take_of_length_le (hdone ▸ hle)]
        · change Function.update disk file _ f = d f
          rw [Function.update_of_ne hfile, hdone]
  | done =>
      rcases writing with _ | ⟨s', d⟩
      · cases hs
      simp only [act] at hs
      split_ifs at hs with hdone
      obtain rfl := Option.some.inj hs
      obtain rfl : disk = d := funext fun file => hdone file (mem_dataFiles file)
      exact ⟨⟨es, ls, hstep⟩, fun _ _ => List.prefix_refl _, fun _ _ _ => rfl, h.copies⟩
  | stop =>
      obtain rfl : writing = none := hquiet
      obtain rfl := Option.some.inj hs
      exact ⟨⟨es, ls, hstep.congr (.inr rfl) fun _ _ => rfl⟩, fun _ _ => List.prefix_refl _,
        fun _ _ _ => rfl, fun f hf => (h.copies f hf).round (h.copies f hf).saved
          fun r hr => absurd hr (Option.not_mem_none r)⟩
  | sync e =>
      obtain ⟨copies', hact, rfl⟩ := Option.map_eq_some_iff.mp hs
      exact ⟨⟨es, ls, hstep⟩, h.begins, h.settled, fun f hf => (h.copies f hf).act hact⟩

/-- **In every undisturbed run** the copies begin the files that opening reads. -/
theorem backed_of_run {es : List MirrorEvent}
    (h : Run (Guarded (Undisturbed z blake3) (Steps (act z blake3))) .initial es m) :
    m.Backed z :=
  h.invariant (I := fun _ m => Backed z m) Backed.initial fun _ _ _ _ hI hs =>
    hI.step hs.1 hs.2

end MirrorSystem

/-! ### What is restored -/

/-- Without its file the index of roots is empty. -/
theorem fsRoots_of_openDir {d d' : DataDir} {s : Stores} (h : Stores.openDir d = .ok (s, d'))
    (hroots : d .rootsIdx = []) : s.fsRoots = ⟨∅⟩ := by
  simp only [Stores.openDir, bind, Except.bind] at h
  split at h
  · cases h
  next b hb =>
  split at h
  · cases h
  next t ht =>
  split at h
  · cases h
  next f hf =>
  obtain ⟨rfl, -⟩ := Prod.mk.inj (Except.ok.inj h)
  have hfile : t.2 .rootsIdx = [] := by
    rw [TurnStore.openDir_of_notMem ht (by decide), BlobStore.openDir_of_notMem hb (by decide),
      hroots]
  simp only [FsRootsIndex.openDir, hfile] at hf
  exact (congrArg Prod.fst (Except.ok.inj hf)).symm

/-- **Beginnings of the files open**, to the first of their records. -/
theorem StoresInStep.opens {z : Zstd} {es : List TurnEvent} {ls : List BlobLocation}
    {n : StoreSystem} (h : StoresInStep z es ls n) {d : DataDir}
    (hpre : ∀ file ∈ readFiles, d file <+: n.disk file) :
    ∃ (j : Journal) (entries : List (Hash × BlobIndexEntry)) (r : Stores) (d' : DataDir),
      j.turns <+: (journalOf es).turns ∧ j.metas <+: (journalOf es).metas ∧
      j.heads <+: (journalOf es).heads ∧ entries <+: ls.map BlobLocation.indexed ∧
      (∃ tail, turnsLogFraming.Layout (d .turnsLog) j.turns tail) ∧
      Stores.openDir d = .ok (r, d') ∧ r.turnStore = j.store ∧
      r.blobStore.index = indexMap entries := by
  obtain ⟨turns, t₁, hturns, hlog⟩ := h.turns.log.of_isPrefix (hpre .turnsLog (by decide))
  obtain ⟨metas, t₂, hmetas, hmeta⟩ := h.turns.turnsMeta.of_isPrefix (hpre .turnsMeta (by decide))
  obtain ⟨heads, t₃, hheads, htbl⟩ := h.turns.heads.of_isPrefix (hpre .headsTbl (by decide))
  obtain ⟨entries, t₄, hentries, hidx⟩ := h.blobs.idx.of_isPrefix (hpre .blobsIdx (by decide))
  obtain ⟨dt, ht, -⟩ := openDir_of_onDisk (d := d.only turnFiles) (j := ⟨turns, metas, heads⟩)
    (t := Tails.ofLogs t₁ t₂ t₃) ⟨hlog, hmeta, htbl⟩
  have hb : BlobStore.openDir (d.only blobFiles) = .ok (⟨indexMap entries⟩,
      Function.update (d.only blobFiles) .blobsIdx (entries.flatMap encodeBlobIndexEntry)) := by
    have hload : loadIndex (d.only blobFiles .blobsIdx) = _ := loadIndex_of_layout hidx
    simp only [BlobStore.openDir, hload, bind, Except.bind, pure, Except.pure]
  obtain ⟨r, d', ho, hrb, hrt, -⟩ := openDir_of_parts hb ht
  exact ⟨_, entries, r, d', hturns, hmetas, hheads, hentries, ⟨t₁, hlog⟩, ho, hrt,
    congrArg BlobStore.index hrb⟩

/-- The first turns of a log have their parents. -/
theorem TurnsInStep.parented {es : List TurnEvent} {m : TurnSystem} (h : TurnsInStep es m)
    {j : Journal} (hpre : j.turns <+: (journalOf es).turns) {d : DataDir}
    (hlog : ∃ tail, turnsLogFraming.Layout (d .turnsLog) j.turns tail) : j.store.Parented := by
  obtain ⟨more, hmore⟩ := hpre
  have hinc := h.mirror.log.increasing
  rw [← hmore, List.map_append, List.pairwise_append] at hinc
  have hmem : ∀ r ∈ j.turns, r ∈ (journalOf es).turns := fun r hr =>
    hmore ▸ List.mem_append_left _ hr
  have hkept : LogKept ⟨j.turns, [], []⟩ ⟨none, d⟩ :=
    ⟨hlog, hinc.1, fun r hr => h.mirror.log.room r (hmem r hr), fun _ hp => (by cases hp)⟩
  have hdag : Dag ⟨j.turns, [], []⟩ := by
    refine ⟨fun r hr => ?_, fun _ hh => absurd hh List.not_mem_nil⟩
    rcases h.dag.turn r (hmem r hr) with h0 | ⟨p, hp, hpar, hlt, hdepth⟩
    · exact .inl h0
    · -- a parent has a smaller id, so it does not come behind
      refine .inr ⟨p, ?_, hpar, hlt, hdepth⟩
      rw [← hmore] at hp
      refine (List.mem_append.mp hp).resolve_right fun hp => ?_
      have hgt := hinc.2.2 _ (List.mem_map_of_mem hr) _ (List.mem_map_of_mem hp)
      exact absurd hlt (UInt64.lt_asymm hgt)
  refine hdag.parented hkept (fun r hr h0 => ?_) (fun r hr => ?_) rfl
  · have hpos := (h.mirror.ids.mem (hmem r hr)).1
    rw [h0] at hpos
    exact absurd hpos (by decide)
  · refine lt_nextId 1 (mem_turnMap.mpr ⟨r, hr, rfl⟩) fun k hk => ?_
    obtain ⟨t, ht, rfl⟩ := mem_turnMap.mp hk
    exact h.mirror.log.room t (hmem t ht)

namespace MirrorSystem

variable {z : Zstd} {blake3 : Bytes → Hash} {m : MirrorSystem}

theorem restored_rootsIdx (m : MirrorSystem) (downloaded : List DataFile) :
    m.restored downloaded .rootsIdx = [] :=
  if_neg fun h => absurd h.1 (by decide)

/-- A context is created, and its head copied. -/
def contextCopied : List MirrorEvent :=
  [.opening [], .done, .call (.createContext 0) 5 none, .grow .headsTbl 36, .done] ++ headsRound

instance (z : Zstd) (blake3 : Bytes → Hash) (m : MirrorSystem) :
    DecidablePred (m.Undisturbed z blake3) := fun
  | .call _ _ fault => inferInstanceAs (Decidable (fault = none ∧ _))
  | .stop => decidable_of_iff (m.writing.isNone = true) Option.isNone_iff_eq_none
  | .opening _ | .cut _ | .grow _ _ | .done | .sync _ => inferInstanceAs (Decidable True)

/-- Opening the turn store reads three of its files. -/
theorem openDir_turns_congr {d e d' : DataDir} {s : TurnStore}
    (h : TurnStore.openDir d = .ok (s, d'))
    (hfiles : ∀ file ∈ [DataFile.turnsLog, .turnsMeta, .headsTbl], e file = d file) :
    ∃ e', TurnStore.openDir e = .ok (s, e') := by
  rw [TurnStore.openDir, hfiles .turnsLog (by simp), hfiles .turnsMeta (by simp),
    hfiles .headsTbl (by simp)]
  simp only [TurnStore.openDir, bind, Except.bind] at h ⊢
  split at h
  · cases h
  split at h
  · cases h
  split at h
  · cases h
  obtain ⟨rfl, -⟩ := Prod.mk.inj (Except.ok.inj h)
  exact ⟨_, rfl⟩

/-- **After a quiet round the server is restored**, without the roots of its snapshots: a round
while nothing is written and nothing fails leaves copies from which the stores open as from the
files of the server, and these are the stores of the process, if there is one. -/
theorem quiet_round_restores {z : Zstd} (blake3 : Bytes → Hash) (es : List MirrorEvent)
    (m : MirrorSystem)
    (h : Run (Guarded (Undisturbed z blake3) (Steps (act z blake3))) .initial es m)
    (hquiet : m.writing = none) :
    ∃ s d d', Stores.openDir m.disk = .ok (s, d) ∧
      Stores.openDir (m.doSync.restored syncFiles) = .ok ({ s with fsRoots := ⟨∅⟩ }, d') ∧
      m.doSync.restored syncFiles .blobsPack = m.disk .blobsPack ∧
      ∀ p, m.proc = some p → p.blobStore.index = s.blobStore.index ∧
        p.turnStore.turns = s.turnStore.turns ∧ p.turnStore.turnMeta = s.turnStore.turnMeta ∧
        p.turnStore.heads = s.turnStore.heads ∧
        p.turnStore.nextTurnId = s.turnStore.nextTurnId := by
  have hbacked := backed_of_run h
  have hafter : m.after = ⟨m.proc, m.disk⟩ := by rw [after, hquiet]
  obtain ⟨es', ls, hstep⟩ := hbacked.inStep
  rw [hafter] at hstep
  -- the copies are the files
  have hcopies : ∀ file ∈ readFiles, m.doSync.restored syncFiles file = m.disk file := by
    intro file hfile
    have hsync : file ∈ syncFiles := by revert hfile; cases file <;> decide
    rw [restored, if_pos ⟨hsync, hsync⟩]
    exact (hbacked.copies file hfile).doRound hsync
  obtain ⟨-, -, s, d, -, -, -, -, -, hopen, -⟩ :=
    hstep.opens (d := m.disk) fun _ _ => List.prefix_refl _
  obtain ⟨hb, ht⟩ := Stores.openDir_ok hopen
  have hb' : BlobStore.openDir ((m.doSync.restored syncFiles).only blobFiles) =
      .ok (s.blobStore, d.only blobFiles) := by
    rw [DataDir.only_congr fun file hfile => hcopies file (mem_readFiles_of_blobs hfile)]
    exact hb
  obtain ⟨dt, ht'⟩ := openDir_turns_congr (e := (m.doSync.restored syncFiles).only turnFiles) ht
    fun file hfile => by
      obtain ⟨hturn, hread⟩ := mem_readFiles_of_turns hfile
      rw [DataDir.only_of_mem _ hturn, DataDir.only_of_mem _ hturn]
      exact hcopies file hread
  obtain ⟨r, d', ho, hrb, hrt, -⟩ := openDir_of_parts hb' ht'
  have hroots := fsRoots_of_openDir ho (m.doSync.restored_rootsIdx syncFiles)
  obtain rfl : r = { s with fsRoots := ⟨∅⟩ } := by
    cases r
    simp only at hrb hrt hroots
    rw [hrb, hrt, hroots]
  refine ⟨s, d, d', hopen, ho, hcopies .blobsPack (by decide), fun p hp => ?_⟩
  -- memory is in step with the files, before the opening and after it
  obtain ⟨hopened, -⟩ := hstep.opening hopen
  have htp : (StoreSystem.turns ⟨m.proc, m.disk⟩).proc = some p.turnStore := by
    simp [StoreSystem.turns, hp]
  have hbp : (StoreSystem.blobs ⟨m.proc, m.disk⟩).proc = some p.blobStore := by
    simp [StoreSystem.blobs, hp]
  have hj : journalOf (es' ++ [.opened]) = journalOf es' := journalOf_concat_of_no_write rfl
  obtain ⟨hturns, hheads, hnext⟩ := hstep.turns.mirror.live _ htp
  obtain ⟨hturns', hheads', hnext'⟩ := hopened.turns.mirror.live s.turnStore rfl
  have hmetas := hstep.turns.metas.live _ htp
  have hmetas' := hopened.turns.metas.live s.turnStore rfl
  rw [hj] at hturns' hheads' hnext' hmetas'
  exact ⟨(hstep.blobs.live _ hbp).trans (hopened.blobs.live s.blobStore rfl).symm,
    hturns.trans hturns'.symm, hmetas.trans hmetas'.symm, hheads.trans hheads'.symm,
    UInt64.toNat.inj (hnext.trans hnext'.symm)⟩

set_option maxRecDepth 10000 in
/-- What is restored of the copied context after one more round. -/
theorem quiet_round_restores_contextCopied :
    ∃ (m : MirrorSystem) (s : Stores) (d d' : DataDir),
      Stores.openDir m.disk = .ok (s, d) ∧ (m.disk .headsTbl).length = 36 ∧
      Stores.openDir (m.doSync.restored syncFiles) = .ok ({ s with fsRoots := ⟨∅⟩ }, d') := by
  obtain ⟨m, hrun, hquiet, hlen⟩ := exists_run_of_foldlM
    (Undisturbed rawBlockZstd fun _ => emptyHash) (act rawBlockZstd fun _ => emptyHash) initial
    contextCopied (fun m => m.writing.isNone = true ∧ (m.disk .headsTbl).length = 36) (by decide)
  obtain ⟨s, d, d', ho, hr, -⟩ := quiet_round_restores (fun _ => emptyHash) contextCopied m hrun
    (Option.isNone_iff_eq_none.mp hquiet)
  exact ⟨m, s, d, d', ho, hlen, hr⟩

end MirrorSystem

end Cxdb
