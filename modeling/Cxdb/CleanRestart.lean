import Cxdb.ContextIds

/-!
# Restart after a Clean Shutdown

Closing the directory and opening it again, after calls that all returned. The turns,
their metadata, the heads and the turn counter come back as they were. The context counter
is recomputed as one more than the largest context id that has a head, which is where it
stood unless an append named a larger id than any that was handed out.

## Main results

* `clean_restart`: what a restart preserves, and when it preserves the context counter.
* `restart_moves_context_counter`: an append to context 5 moves the counter from 2 to 6.
-/

open ByteFormat FaultyDisk RecordLog LastWrite Transition

namespace Cxdb

/-- One opening of the empty directory, then calls that all return. -/
def OpenedOnce (m : TurnSystem) : TurnEvent → Prop
  | .opened => m.proc = none
  | .acked _ _ _ => True
  | .rejected _ _ _ | .failed _ _ _ _ | .crashed _ _ _ _ => False

instance (m : TurnSystem) : DecidablePred (OpenedOnce m)
  | .opened => decidable_of_iff (m.proc.isNone = true) Option.isNone_iff_eq_none
  | .acked _ _ _ => inferInstanceAs (Decidable True)
  | .rejected _ _ _ | .failed _ _ _ _ | .crashed _ _ _ _ => inferInstanceAs (Decidable False)

theorem OpenedOnce.quiet {m : TurnSystem} {e : TurnEvent} (h : OpenedOnce m e) :
    e.Quiet := by
  cases e with
  | opened | acked => trivial
  | rejected | failed | crashed => exact h.elim

/-- A process runs once the directory has been opened. -/
theorem numbered_of_openedOnce {es : List TurnEvent} {m : TurnSystem}
    (h : Run (Guarded OpenedOnce TurnStep) TurnSystem.initial es m) :
    Numbered es m ∧ (m.proc = none → es = []) := by
  induction h with
  | start => exact ⟨Numbered.initial, fun _ => rfl⟩
  | @next es m m' e hrun hs ih =>
      obtain ⟨hnum, hempty⟩ := ih
      have hquiet : Run (Guarded (fun _ e => e.Quiet) TurnStep) TurnSystem.initial es m :=
        hrun.mono fun _ _ _ hs => ⟨hs.1.quiet, hs.2⟩
      obtain ⟨hmir, -⟩ := mirror_of_quiet hquiet
      obtain ⟨hmir', -⟩ := mirror_of_quiet (hquiet.next ⟨hs.1.quiet, hs.2⟩)
      refine ⟨hnum.step hs.2 hs.1.quiet hmir hmir' ?_, ?_⟩
      · rintro rfl
        obtain rfl := hempty hs.1
        simp [appendedIds]
      · intro hnone
        rcases hs.2.cases with ⟨-, s, d', -, rfl⟩ | ⟨_, _, _, s, -, hproc, -, rfl⟩ |
          ⟨c, now, w, stop, s, hw, -, -, -, -, -, hproc'⟩
        · simp at hnone
        · simp [hproc] at hnone
        · obtain ⟨-, c', now', rfl⟩ := hs.1.quiet.write hw
          simp [hproc', TurnEvent.survives] at hnone

/-- **Clean restart.** After any sequence of calls that all returned, with type ids that
fit their length field, opening the directory again gives the same turns, metadata, heads
and turn counter as the running store has, and it gives the same context counter exactly
when no append named a context beyond the number of contexts created. -/
theorem clean_restart {es : List TurnEvent} {m : TurnSystem} {s : TurnStore}
    (h : Run (Guarded (fun m e => OpenedOnce m e ∧ e.TypeIdFits) TurnStep)
      TurnSystem.initial es m) (hs : m.proc = some s) :
    ∃ s' d', TurnStore.openDir m.disk = .ok (s', d') ∧
      (s'.turns = s.turns ∧ s'.turnMeta = s.turnMeta ∧ s'.heads = s.heads ∧
        s'.nextTurnId = s.nextTurnId) ∧
      (s'.nextContextId = s.nextContextId ↔
        ∀ c ∈ appendedIds es, c.toNat ≤ (createdIds es).length) := by
  obtain ⟨hnum, -⟩ := numbered_of_openedOnce (h.mono fun _ _ _ hs => ⟨hs.1.1, hs.2⟩)
  obtain ⟨hmir, -⟩ := mirror_of_quiet (h.mono fun _ _ _ hs => ⟨hs.1.1.quiet, hs.2⟩)
  obtain ⟨hmeta, -⟩ :=
    metaMirror_of_quiet (h.mono fun _ _ _ hs => ⟨⟨hs.1.1.quiet, hs.1.2⟩, hs.2⟩)
  obtain ⟨s', d', ho, -⟩ := shows_of_kept hmir.log hmeta.metas hmir.heads
  obtain ⟨hturns, hheads, hnext⟩ := hmir.live s hs
  obtain ⟨hturns', hnext', -⟩ := hmir.log.opened ho
  obtain ⟨hheads', hctx'⟩ := hmir.heads.opened ho
  have hsize := hmir.size
  refine ⟨s', d', ho, ⟨by rw [hturns', hturns], ?_, by rw [hheads', hheads], ?_⟩, ?_⟩
  · rw [hmeta.metas.opened ho, hmeta.live s hs]
  · rw [← UInt64.toNat_inj, hnext', hmir.ids.nextId (by omega), hnext]
  · rw [← hnum.nextId_headMap, hctx', ← UInt64.toNat_inj, hnum.next s hs]

set_option maxRecDepth 2000 in
/-- `clean_restart` on a fork, before it is reopened. -/
theorem clean_restart_forkInputs :
    ∃ es m s s' d', execAll (fun m e => OpenedOnce m e ∧ e.TypeIdFits) TurnSystem.exec
        TurnSystem.initial (forkInputs.take 6) = some (es, m) ∧ m.proc = some s ∧
      TurnStore.openDir m.disk = .ok (s', d') ∧ s'.turns = s.turns ∧
      s'.nextContextId = s.nextContextId := by
  obtain ⟨es, m, h, hrun, hproc, hids⟩ := TurnSystem.exists_run
    (fun m e => OpenedOnce m e ∧ e.TypeIdFits) (forkInputs.take 6)
    (fun es m => m.proc.isSome = true ∧
      (appendedIds es).all (fun c => c.toNat ≤ (createdIds es).length) = true)
    (by decide)
  obtain ⟨s, hs⟩ := Option.isSome_iff_exists.mp hproc
  obtain ⟨s', d', ho, ⟨hturns, -⟩, hctx⟩ := clean_restart hrun hs
  exact ⟨es, m, s, s', d', h, hs, ho, hturns, hctx.mpr (by simpa using hids)⟩

/-- An append with an explicit parent to context 5, when one context exists. -/
def strayInputs : List TurnInput :=
  [.opening, .call (.createContext 0) 0, .call (plainAppend 1 0) 1,
    .call (plainAppend 5 1) 2]

set_option maxRecDepth 2000 in
/-- **A restart moves the context counter.** All calls have returned, the counter of the
running store is 2, and after closing and opening it is 6. -/
theorem restart_moves_context_counter :
    ∃ es m s s' d', execAll (fun m e => OpenedOnce m e ∧ e.TypeIdFits) TurnSystem.exec
        TurnSystem.initial strayInputs = some (es, m) ∧
      Run TurnStep TurnSystem.initial es m ∧ m.proc = some s ∧
      TurnStore.openDir m.disk = .ok (s', d') ∧ s.nextContextId = 2 ∧
      s'.nextContextId = 6 := by
  obtain ⟨es, m, h, hrun, hproc, hlive, hopen, hctx⟩ := TurnSystem.exists_run
    (fun m e => OpenedOnce m e ∧ e.TypeIdFits) strayInputs
    (fun _ m => m.proc.isSome = true ∧ (∀ s ∈ m.proc, s.nextContextId = 2) ∧
      (TurnStore.openDir m.disk).toOption.isSome = true ∧
      ∀ o ∈ (TurnStore.openDir m.disk).toOption, o.1.nextContextId = 6)
    (by decide +kernel)
  obtain ⟨s, hs⟩ := Option.isSome_iff_exists.mp hproc
  obtain ⟨⟨s', d'⟩, ho⟩ := Option.isSome_iff_exists.mp hopen
  have ho' : TurnStore.openDir m.disk = .ok (s', d') := by
    cases hx : TurnStore.openDir m.disk with
    | error e => simp [hx, Except.toOption] at ho
    | ok r => simpa [hx, Except.toOption] using ho
  exact ⟨es, m, s, s', d', h, hrun.of_guarded, hs, ho', hlive s hs, hctx _ ho⟩

end Cxdb
