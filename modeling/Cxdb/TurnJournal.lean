import Cxdb.TurnCalls
import Cxdb.TurnFiles

/-!
# The Journal of the Turn Store

A `Journal` is what the files of the turn store say: the turns, the metadata records and
the head records that are wholly written, in the order of writing. `OnDisk d j t` relates
it to the bytes, with `t` the torn tails behind the last whole record of each file.

`Journal.store` is the store a journal describes: last write wins, per key. Opening the
directory builds exactly that store (`openDir_of_onDisk`), and a call adds to each file's records
what it has wholly written (`layout_written`), provided it does not write behind a torn
record.

## Main results

* `openDir_of_onDisk`: opening replays the journal and keeps it.
* `layout_turnsLog_call` and its companions: each file after a call, for every fault.
-/

open ByteFormat FaultyDisk RecordLog LastWrite

namespace Cxdb

/-- The records the files of the turn store hold. -/
structure Journal where
  turns : List TurnRecord
  metas : List (UInt64 × TurnMeta)
  heads : List ContextHead

/-- The journal of an empty directory. -/
def Journal.empty : Journal := ⟨[], [], []⟩

instance : Append Journal where
  append j k := ⟨j.turns ++ k.turns, j.metas ++ k.metas, j.heads ++ k.heads⟩

@[simp] theorem Journal.append_turns (j k : Journal) : (j ++ k).turns = j.turns ++ k.turns :=
  rfl

@[simp] theorem Journal.append_metas (j k : Journal) : (j ++ k).metas = j.metas ++ k.metas :=
  rfl

@[simp] theorem Journal.append_heads (j k : Journal) : (j ++ k).heads = j.heads ++ k.heads :=
  rfl

/-! ### The store of a journal -/

/-- The turns by id. -/
def turnMap (turns : List TurnRecord) : HashMap UInt64 TurnRecord :=
  insertAll TurnRecord.turnId id ∅ turns

/-- The offset of each turn in the log, by id. -/
def turnOffsets (turns : List TurnRecord) : HashMap UInt64 UInt64 :=
  foldOffsets (fun r => (encodeTurnRecord r).length)
    (fun m offset (r : TurnRecord) => m.insert r.turnId (UInt64.ofNat offset)) 0 ∅ turns

/-- The metadata by turn id. -/
def metaMap (metas : List (UInt64 × TurnMeta)) : HashMap UInt64 TurnMeta :=
  insertAll Prod.fst Prod.snd ∅ metas

/-- The heads by context id. -/
def headMap (heads : List ContextHead) : HashMap UInt64 ContextHead :=
  insertAll ContextHead.contextId id ∅ heads

/-- The store that replaying a journal gives. -/
def Journal.store (j : Journal) : TurnStore :=
  { turns := turnMap j.turns
    turnIndex := turnOffsets j.turns
    turnMeta := metaMap j.metas
    heads := headMap j.heads
    nextTurnId := nextId (turnMap j.turns) 1
    nextContextId := nextId (headMap j.heads) 1 }

theorem turnMap_concat (turns : List TurnRecord) (r : TurnRecord) :
    turnMap (turns ++ [r]) = (turnMap turns).insert r.turnId r :=
  insertAll_concat _ _ _

theorem metaMap_concat (metas : List (UInt64 × TurnMeta)) (m : UInt64 × TurnMeta) :
    metaMap (metas ++ [m]) = (metaMap metas).insert m.1 m.2 :=
  insertAll_concat _ _ _

theorem headMap_concat (heads : List ContextHead) (h : ContextHead) :
    headMap (heads ++ [h]) = (headMap heads).insert h.contextId h :=
  insertAll_concat _ _ _

theorem nextId_empty {α : Type} (default : UInt64) :
    nextId (∅ : HashMap UInt64 α) default = default := rfl

/-- The counter after opening: one more than the largest key. -/
theorem nextId_eq {α : Type} {m : HashMap UInt64 α} {x : UInt64} (default : UInt64)
    (hx : x ∈ m) (hmax : ∀ k ∈ m, k ≤ x) : nextId m default = x + 1 := by
  have h : m.keys.max = (x : WithBot UInt64) := by
    refine le_antisymm ?_ (Finset.le_max (Finmap.mem_keys.mpr hx))
    exact Finset.max_le fun k hk => WithBot.coe_le_coe.mpr (hmax k (Finmap.mem_keys.mp hk))
  unfold nextId
  rw [h]

/-! ### Journal and files -/

/-- The record files of the turn store; `turns.idx` is rebuilt and never read. -/
def recordFiles : List DataFile := [.turnsLog, .turnsMeta, .headsTbl]

/-- What stands behind the last whole record of each file. -/
abbrev Tails := DataFile → Bytes

/-- No torn record anywhere. -/
def Tails.none : Tails := fun _ => []

/-- The files hold the journal, followed by torn tails. -/
structure OnDisk (d : DataDir) (j : Journal) (t : Tails) : Prop where
  log : turnsLogFraming.Layout (d .turnsLog) j.turns (t .turnsLog)
  metas : turnsMetaFraming.Layout (d .turnsMeta) j.metas (t .turnsMeta)
  heads : headsTblFraming.Layout (d .headsTbl) j.heads (t .headsTbl)

theorem onDisk_empty : OnDisk DataDir.empty Journal.empty Tails.none :=
  ⟨Framing.layout_nil, Framing.layout_nil, Framing.layout_nil⟩

/-- The tails the loaders leave. -/
def Tails.kept (t : Tails) : Tails
  | .turnsLog => RecordLog.kept turnsLogFraming.read (t .turnsLog)
  | .turnsMeta => RecordLog.kept turnsMetaFraming.read (t .turnsMeta)
  | .headsTbl => RecordLog.kept headsTblFraming.read (t .headsTbl)
  | file => t file

theorem foldOffsets_pair (turns : List TurnRecord) (pos : ℕ)
    (m : HashMap UInt64 TurnRecord) (idx : HashMap UInt64 UInt64) :
    foldOffsets (fun r => (encodeTurnRecord r).length)
      (fun (s : HashMap UInt64 TurnRecord × HashMap UInt64 UInt64) offset
          (record : TurnRecord) =>
        (s.1.insert record.turnId record, s.2.insert record.turnId (UInt64.ofNat offset)))
      pos (m, idx) turns =
    (insertAll TurnRecord.turnId id m turns,
      foldOffsets (fun r => (encodeTurnRecord r).length)
        (fun m offset (r : TurnRecord) => m.insert r.turnId (UInt64.ofNat offset))
        pos idx turns) := by
  induction turns generalizing pos m idx with
  | nil => rfl
  | cons r turns ih => simp only [foldOffsets, ih, insertAll, List.foldl_cons, id]

/-- `load_turns` on a laid-out log. -/
theorem loadTurns_of_layout {file tail : Bytes} {turns : List TurnRecord}
    (h : turnsLogFraming.Layout file turns tail) :
    loadTurns file = .ok ((turnMap turns, turnOffsets turns),
      turns.flatMap encodeTurnRecord ++ RecordLog.kept turnsLogFraming.read tail) := by
  refine (Framing.scan_layout _ _ h).trans ?_
  rw [show (fun a => (turnsLogFraming.enc a).length) =
    fun r => (encodeTurnRecord r).length from rfl, foldOffsets_pair]
  rfl

/-- `load_meta` on a laid-out file. -/
theorem loadMeta_of_layout {file tail : Bytes} {metas : List (UInt64 × TurnMeta)}
    (h : turnsMetaFraming.Layout file metas tail) :
    loadMeta file = .ok (metaMap metas,
      metas.flatMap encodeTurnMeta ++ RecordLog.kept turnsMetaFraming.read tail) := by
  refine (Framing.scan_layout _ _ h).trans ?_
  have hfold : foldOffsets (fun a => (turnsMetaFraming.enc a).length)
      (fun s _ m => s.insert m.1 m.2) 0 ∅ metas = metaMap metas :=
    foldOffsets_eq_foldl _ _ _ _ _
  rw [hfold]
  rfl

/-- `load_heads` on a laid-out file. -/
theorem loadHeads_of_layout {file tail : Bytes} {heads : List ContextHead}
    (h : headsTblFraming.Layout file heads tail) :
    loadHeads file = .ok (headMap heads,
      heads.flatMap encodeContextHead ++ RecordLog.kept headsTblFraming.read tail) := by
  refine (Framing.scan_layout _ _ h).trans ?_
  have hfold : foldOffsets (fun a => (headsTblFraming.enc a).length)
      (fun s _ head => s.insert head.contextId head) 0 ∅ heads = headMap heads :=
    foldOffsets_eq_foldl _ _ _ _ _
  rw [hfold]
  rfl

/-- The parts of `TurnStore::open`. -/
theorem openDir_ok {d d' : DataDir} {s : TurnStore}
    (h : TurnStore.openDir d = .ok (s, d')) :
    loadTurns (d .turnsLog) = .ok ((s.turns, s.turnIndex), d' .turnsLog) ∧
    loadMeta (d .turnsMeta) = .ok (s.turnMeta, d' .turnsMeta) ∧
    loadHeads (d .headsTbl) = .ok (s.heads, d' .headsTbl) ∧
    s.nextTurnId = nextId s.turns 1 ∧ s.nextContextId = nextId s.heads 1 := by
  simp only [TurnStore.openDir, bind, Except.bind] at h
  split at h
  · exact absurd h (by simp)
  next r hr =>
  split at h
  · exact absurd h (by simp)
  next m hm =>
  split at h
  · exact absurd h (by simp)
  next t ht =>
  simp only [pure, Except.pure, Except.ok.injEq, Prod.mk.injEq] at h
  obtain ⟨rfl, rfl⟩ := h
  exact ⟨hr, hm, ht, rfl, rfl⟩

/-- **Opening replays the journal.** It succeeds on every laid-out directory, builds the
store of the journal, keeps the journal, and touches only the files of the turn store. -/
theorem openDir_of_onDisk {d : DataDir} {j : Journal} {t : Tails} (h : OnDisk d j t) :
    ∃ d', TurnStore.openDir d = .ok (j.store, d') ∧ OnDisk d' j t.kept ∧
      d' .turnsIdx = rebuildIndex (turnOffsets j.turns) ∧
      ∀ file, file ∉ [DataFile.turnsLog, .turnsIdx, .turnsMeta, .headsTbl] →
        d' file = d file := by
  rw [TurnStore.openDir, loadTurns_of_layout h.log, loadMeta_of_layout h.metas,
    loadHeads_of_layout h.heads]
  refine ⟨_, rfl, ⟨h.log.kept, h.metas.kept, h.heads.kept⟩, rfl, ?_⟩
  intro file hfile
  cases file <;> simp at hfile ⊢

/-! ### What a call adds -/

/-- What a call that stops at `stop` has wholly written. -/
def Entry.saved (w : Entry) (stop : Option (Fault DataFile)) : Journal where
  turns :=
    match w.turn with
    | none => []
    | some t => if whole stop .turnsLog (encodeTurnRecord t.1).length then [t.1] else []
  metas :=
    match w.turn with
    | none => []
    | some t =>
        if whole stop .turnsMeta (encodeTurnMeta (t.1.turnId, t.2)).length then
          [(t.1.turnId, t.2)]
        else []
  heads := if whole stop .headsTbl (encodeContextHead w.head).length then [w.head] else []

/-- The type id of the turn, if the call appends one, fits its length field. -/
def Entry.TypeIdFits (w : Entry) : Prop :=
  ∀ t ∈ w.turn, Cxdb.TypeIdFits t.2.declaredTypeId

instance (w : Entry) : Decidable w.TypeIdFits :=
  inferInstanceAs (Decidable (∀ t ∈ w.turn, Cxdb.TypeIdFits t.2.declaredTypeId))

/-- What a call that stops at `stop` leaves of a record that is not whole. -/
def Entry.tails (w : Entry) (offset : ℕ) (stop : Option (Fault DataFile)) : Tails :=
  fun file =>
    if whole stop file (w.bytes offset file).length then []
    else written stop file (w.bytes offset file)

/-- The log under a call. -/
theorem layout_turnsLog_call {bs tail : Bytes} {turns : List TurnRecord} (w : Entry)
    (offset : ℕ) (stop : Option (Fault DataFile))
    (h : turnsLogFraming.Layout bs turns tail)
    (htail : written stop .turnsLog (w.bytes offset .turnsLog) ≠ [] → tail = []) :
    turnsLogFraming.Layout (bs ++ written stop .turnsLog (w.bytes offset .turnsLog))
      (turns ++ (w.saved stop).turns) (tail ++ w.tails offset stop .turnsLog) := by
  cases hw : w.turn with
  | none => simpa [Entry.bytes, Entry.tails, Entry.saved, hw] using h
  | some turn =>
      have h' := layout_written .turnsLog stop (a := turn.1) h trivial
        (by simpa [Entry.bytes, hw] using htail)
      simpa [Entry.bytes, Entry.tails, Entry.saved, hw] using h'

/-- The head table under a call. -/
theorem layout_headsTbl_call {bs tail : Bytes} {heads : List ContextHead} (w : Entry)
    (offset : ℕ) (stop : Option (Fault DataFile))
    (h : headsTblFraming.Layout bs heads tail)
    (htail : written stop .headsTbl (w.bytes offset .headsTbl) ≠ [] → tail = []) :
    headsTblFraming.Layout (bs ++ written stop .headsTbl (w.bytes offset .headsTbl))
      (heads ++ (w.saved stop).heads) (tail ++ w.tails offset stop .headsTbl) := by
  have h' := layout_written .headsTbl stop (a := w.head) h trivial
    (by simpa [Entry.bytes] using htail)
  simpa [Entry.bytes, Entry.tails, Entry.saved] using h'

/-- The metadata under a call, when the type id fits its length field. -/
theorem layout_turnsMeta_call {bs tail : Bytes} {metas : List (UInt64 × TurnMeta)}
    (w : Entry) (offset : ℕ) (stop : Option (Fault DataFile))
    (h : turnsMetaFraming.Layout bs metas tail) (hfits : w.TypeIdFits)
    (htail : written stop .turnsMeta (w.bytes offset .turnsMeta) ≠ [] → tail = []) :
    turnsMetaFraming.Layout (bs ++ written stop .turnsMeta (w.bytes offset .turnsMeta))
      (metas ++ (w.saved stop).metas) (tail ++ w.tails offset stop .turnsMeta) := by
  cases hw : w.turn with
  | none => simpa [Entry.bytes, Entry.tails, Entry.saved, hw] using h
  | some turn =>
      have h' := layout_written .turnsMeta stop (a := (turn.1.turnId, turn.2)) h
        (hfits turn hw) (by simpa [Entry.bytes, hw] using htail)
      simpa [Entry.bytes, Entry.tails, Entry.saved, hw] using h'

end Cxdb
