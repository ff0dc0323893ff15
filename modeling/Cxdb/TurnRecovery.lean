import Cxdb.TurnMirror

/-!
# Crash Recovery of the Turn Store

`TurnStore::open` after crashes. `load_meta` and `load_heads` stop without truncating when
fewer than the eight bytes of an id are left in the file, so the torn start of a record
can stay where it is and the next record is written behind it. From then on the file is
out of step: everything appended to it is lost at the next opening.

## Main results

* `recovers`: as long as nothing is written behind such a torn record, every
  acknowledged call is there after any number of crashes and reopenings.
* `torn_meta_loses_turn`: one byte of a torn metadata record loses a later turn's
  metadata.
-/

open ByteFormat FaultyDisk RecordLog Transition

namespace Cxdb

/-- The call does not append to `turns.meta` or `heads.tbl` while the file ends in a torn
record, and its type id fits the length field. -/
def Recoverable (m : TurnSystem) (e : TurnEvent) : Prop :=
  e.TypeIdFits ∧ Aligned turnsMetaFraming .turnsMeta m e ∧
    Aligned headsTblFraming .headsTbl m e

instance (m : TurnSystem) (e : TurnEvent) : Decidable (Recoverable m e) :=
  inferInstanceAs (Decidable (_ ∧ _))

/-- Memory stays in step with all three files. -/
theorem mirror_of_recoverable {es : List TurnEvent} {m : TurnSystem}
    (h : Run (Guarded (fun m e => e.NoFailure ∧ Recoverable m e) TurnStep)
      TurnSystem.initial es m) :
    Mirror (journalOf es) m ∧ MetaMirror (journalOf es) m := by
  refine h.invariant (I := fun es m => Mirror (journalOf es) m ∧ MetaMirror (journalOf es) m)
    ⟨Mirror.initial, MetaMirror.initial⟩ ?_
  rintro es m e m' ⟨hmir, hmeta⟩ ⟨⟨hno, hfits, halm, halh⟩, hs⟩
  exact ⟨hmir.step hs hno halh, hmeta.step hmir.log hs hno halm hfits⟩

/-- **Crash recovery.** In every run of calls, crashes at any byte of a call's writes and
reopenings in which no call appends to `turns.meta` or `heads.tbl` behind a torn record,
the directory opens in every state reached and shows every acknowledged turn, metadata
record and head, and so does the running process. -/
theorem recovers {es : List TurnEvent} {m : TurnSystem}
    (h : Run (Guarded (fun m e => e.NoFailure ∧ Recoverable m e) TurnStep)
      TurnSystem.initial es m) :
    (∃ s d', TurnStore.openDir m.disk = .ok (s, d') ∧ Shows s es) ∧
      ∀ s, m.proc = some s → Shows s es := by
  obtain ⟨hmir, hmeta⟩ := mirror_of_recoverable h
  refine ⟨shows_of_kept hmir.log hmeta.metas hmir.heads, fun s hs => ?_⟩
  obtain ⟨hturns, hheads, -⟩ := hmir.live s hs
  exact shows_of_maps hmir.log hmeta.metas hturns (hmeta.live s hs) hheads

/-- A crash in the middle of a head record, and one between log and metadata. -/
def tornHeadInputs : List TurnInput :=
  [.opening, .call (.createContext 0) 0, .call (plainAppend 1 0) 1,
    .crashing (plainAppend 1 0) 2 ⟨.headsTbl, 20⟩, .opening,
    .crashing (plainAppend 1 0) 3 ⟨.turnsIdx, 3⟩, .opening, .call (plainAppend 1 0) 4]

set_option maxRecDepth 2000 in
/-- `recovers` over two crashes. -/
theorem recovers_tornHeadInputs :
    ∃ es m, execAll (fun m e => e.NoFailure ∧ Recoverable m e) TurnSystem.exec
        TurnSystem.initial tornHeadInputs = some (es, m) ∧
      (∃ s d', TurnStore.openDir m.disk = .ok (s, d') ∧ Shows s es) ∧
      ∀ s, m.proc = some s → Shows s es := by
  obtain ⟨es, m, h, hrun, -⟩ := TurnSystem.exists_run
    (fun m e => e.NoFailure ∧ Recoverable m e) tornHeadInputs (fun _ _ => True)
    (by decide +kernel)
  exact ⟨es, m, h, recovers hrun⟩

/-! ### A torn metadata record -/

/-- The second append dies after one byte of its metadata record; the third one is
acknowledged. -/
def tornMetaInputs : List TurnInput :=
  [.opening, .call (.createContext 0) 0, .call (plainAppend 1 0) 1,
    .crashing (plainAppend 1 0) 2 ⟨.turnsMeta, 1⟩, .opening, .call (plainAppend 1 0) 3]

set_option maxRecDepth 2000 in
/-- **One torn byte loses an acknowledged turn's metadata.** After one crash and one
acknowledged call the directory opens, but the metadata of the acknowledged turn is gone. -/
theorem torn_meta_loses_turn :
    ∃ es m, execAll (fun _ e => e.NoFailure) TurnSystem.exec TurnSystem.initial
        tornMetaInputs = some (es, m) ∧
      Run TurnStep TurnSystem.initial es m ∧
      ¬ ∃ s d', TurnStore.openDir m.disk = .ok (s, d') ∧ Shows s es := by
  obtain ⟨es, m, h, hrun, ⟨w, hw, t, ht, hid⟩, hlost⟩ := TurnSystem.exists_run
    (fun _ e => e.NoFailure) tornMetaInputs
    (fun es m => (∃ w ∈ ackedEntries es, ∃ t ∈ w.turn, t.1.turnId = 3) ∧
      ∀ o ∈ (TurnStore.openDir m.disk).toOption, o.1.turnMeta.lookup 3 = none)
    (by decide +kernel)
  refine ⟨es, m, h, hrun.of_guarded, ?_⟩
  rintro ⟨s, d', ho, hshows⟩
  have hmeta := (hshows.turns w hw t ht).2
  rw [hid, hlost (s, d') (by simp [ho, Except.toOption])] at hmeta
  exact absurd hmeta (by simp)

end Cxdb
