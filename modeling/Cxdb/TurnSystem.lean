import Cxdb.Transition
import Cxdb.TurnJournal

/-!
# Runs of the Turn Store

The turn store as a system: a process that may or may not be running, and the data
directory. Its events are the calls with their outcomes and the opening of the directory.

* `acked`: the call returned `Ok`.
* `rejected`: a lookup of the call failed.
* `failed`: a write or sync of the call stopped and the process goes on serving.
* `crashed`: a write or sync of the call stopped because the process died there.
* `opened`: a process opens the directory, after a clean exit or after a crash.

An event carries the entry its call wrote or was writing, so that the run says what has
been promised. `journalOf` is the journal of a run: what its calls have wholly written.

## Main results

* `TurnStep.cases`: what a step can do.
* `entryOf_create`, `entryOf_append`: where an entry comes from.
* `TurnSystem.step_of_exec`: the steps can be computed.
-/

open ByteFormat FaultyDisk RecordLog Transition

namespace Cxdb

/-- A process, if one is running, and the data directory. -/
structure TurnSystem where
  proc : Option TurnStore
  disk : DataDir

/-- No process has opened the empty directory yet. -/
def TurnSystem.initial : TurnSystem := ⟨none, DataDir.empty⟩

inductive TurnEvent where
  | opened
  | acked (c : TurnCall) (now : UInt64) (w : Entry)
  | rejected (c : TurnCall) (now : UInt64) (e : StoreError)
  | failed (c : TurnCall) (now : UInt64) (f : Fault DataFile) (w : Entry)
  | crashed (c : TurnCall) (now : UInt64) (f : Fault DataFile) (w : Entry)

/-- The steps of the system. -/
inductive TurnStep : TurnSystem → TurnEvent → TurnSystem → Prop
  | opened {p : Option TurnStore} {d d' : DataDir} {s : TurnStore} :
      TurnStore.openDir d = .ok (s, d') → TurnStep ⟨p, d⟩ .opened ⟨some s, d'⟩
  | acked {c : TurnCall} {now : UInt64} {w : Entry} {s s' : TurnStore} {d d' : DataDir}
      {reply : TurnReply} :
      s.entryOf now c = .ok w →
      runCall (c.run now) s d none = (.ok reply, s', d') → d'.Fits →
      TurnStep ⟨some s, d⟩ (.acked c now w) ⟨some s', d'⟩
  | rejected {c : TurnCall} {now : UInt64} {e : StoreError} {s s' : TurnStore}
      {d d' : DataDir} :
      runCall (c.run now) s d none = (.error e, s', d') →
      TurnStep ⟨some s, d⟩ (.rejected c now e) ⟨some s', d'⟩
  | failed {c : TurnCall} {now : UInt64} {f : Fault DataFile} {w : Entry} {e : StoreError}
      {s s' : TurnStore} {d d' : DataDir} :
      s.entryOf now c = .ok w →
      runCall (c.run now) s d (some f) = (.error e, s', d') → d'.Fits →
      TurnStep ⟨some s, d⟩ (.failed c now f w) ⟨some s', d'⟩
  | crashed {c : TurnCall} {now : UInt64} {f : Fault DataFile} {w : Entry} {e : StoreError}
      {s s' : TurnStore} {d d' : DataDir} :
      s.entryOf now c = .ok w →
      runCall (c.run now) s d (some f) = (.error e, s', d') → d'.Fits →
      TurnStep ⟨some s, d⟩ (.crashed c now f w) ⟨none, d'⟩

/-! ### Where an entry comes from -/

theorem entryOf_create {s : TurnStore} {now base : UInt64} {w : Entry}
    (h : s.entryOf now (.createContext base) = .ok w) :
    ∃ b, s.baseOf base = .ok b ∧ w = ⟨none, ⟨s.nextContextId, b.1, b.2, now, 0⟩⟩ := by
  cases hb : s.baseOf base with
  | error e => simp [TurnStore.entryOf, hb, Except.map] at h
  | ok b =>
      simp only [TurnStore.entryOf, hb, Except.map, Except.ok.injEq] at h
      exact ⟨b, rfl, h.symm⟩

theorem entryOf_append {s : TurnStore} {now : UInt64} {a : AppendArgs} {w : Entry}
    (h : s.entryOf now (.appendTurn a) = .ok w) :
    ∃ p, s.parentOf a.contextId a.parentTurnId = .ok p ∧
      w = ⟨some (a.record s.nextTurnId p.1 p.2 now, a.turnMeta),
        a.head (a.record s.nextTurnId p.1 p.2 now)⟩ := by
  cases hp : s.parentOf a.contextId a.parentTurnId with
  | error e => simp [TurnStore.entryOf, hp, Except.map] at h
  | ok p =>
      simp only [TurnStore.entryOf, hp, Except.map, Except.ok.injEq] at h
      exact ⟨p, rfl, h.symm⟩

/-! ### What an event does -/

/-- A call that stops does so in one of its files. -/
theorem stop_of_error {c : TurnCall} {now : UInt64} {f : Fault DataFile} {w : Entry}
    {e : StoreError} {s s' : TurnStore} {d d' : DataDir} (hw : s.entryOf now c = .ok w)
    (h : runCall (c.run now) s d (some f) = (.error e, s', d')) :
    f.file ∈ w.files ∧ s' = s.after w (d .turnsLog).length (some f) ∧
      d' = w.onto d (some f) := by
  rw [TurnCall.run_eq, hw] at h
  by_cases hf : f.file ∈ w.files
  · obtain ⟨-, rfl, rfl⟩ := by simpa [Entry.outcome, Entry.stop, hf] using h
    exact ⟨hf, rfl, rfl⟩
  · simp [Entry.outcome, Entry.stop, hf] at h

/-- What a call event writes, and where it stops. -/
def TurnEvent.write : TurnEvent → Option (Entry × Option (Fault DataFile))
  | .acked _ _ w => some (w, none)
  | .failed _ _ f w | .crashed _ _ f w => some (w, some f)
  | .opened | .rejected _ _ _ => none

/-- The call of an event, and its time. -/
def TurnEvent.call : TurnEvent → Option (TurnCall × UInt64)
  | .acked c now _ | .rejected c now _ | .failed c now _ _ | .crashed c now _ _ =>
      some (c, now)
  | .opened => none

/-- A process that stops at `stop` is gone after a crash, and goes on otherwise. -/
def TurnEvent.survives : TurnEvent → Bool
  | .crashed _ _ _ _ => false
  | _ => true

/-- **What a step can do.** It opens the directory, or it is rejected and changes nothing,
or a call puts its entry into the files and the maps as far as it gets. -/
theorem TurnStep.cases {m m' : TurnSystem} {e : TurnEvent} (h : TurnStep m e m') :
    (e = .opened ∧ ∃ s d', TurnStore.openDir m.disk = .ok (s, d') ∧ m' = ⟨some s, d'⟩) ∨
    (∃ c now err s, e = .rejected c now err ∧ m.proc = some s ∧
      s.entryOf now c = .error err ∧ m' = m) ∨
    (∃ c now w stop s, e.write = some (w, stop) ∧ e.call = some (c, now) ∧
      m.proc = some s ∧ s.entryOf now c = .ok w ∧ m'.disk = w.onto m.disk stop ∧ m'.disk.Fits ∧
      m'.proc = if e.survives then some (s.after w (m.disk .turnsLog).length stop)
        else none) := by
  cases h with
  | opened h => exact Or.inl ⟨rfl, _, _, h, rfl⟩
  | rejected h =>
      rw [TurnCall.run_eq] at h
      split at h
      · next he =>
          obtain ⟨rfl, rfl, rfl⟩ := by simpa using h
          exact Or.inr (Or.inl ⟨_, _, _, _, rfl, rfl, he, rfl⟩)
      · simp [Entry.outcome, Entry.stop] at h
  | acked hw h hfits =>
      rw [TurnCall.run_eq, hw] at h
      obtain ⟨-, rfl, rfl⟩ := by simpa [Entry.outcome, Entry.stop] using h
      exact Or.inr (Or.inr ⟨_, _, _, none, _, rfl, rfl, rfl, hw, rfl, hfits, rfl⟩)
  | failed hw h hfits =>
      obtain ⟨-, rfl, rfl⟩ := stop_of_error hw h
      exact Or.inr (Or.inr ⟨_, _, _, some _, _, rfl, rfl, rfl, hw, rfl, hfits, rfl⟩)
  | crashed hw h hfits =>
      obtain ⟨-, rfl, rfl⟩ := stop_of_error hw h
      exact Or.inr (Or.inr ⟨_, _, _, some _, _, rfl, rfl, rfl, hw, rfl, hfits, rfl⟩)

/-! ### Computed steps -/

/-- What makes the system step: the directory is opened, or a call is made that meets a
fault or none, and at the fault the process fails the call or dies. -/
inductive TurnInput where
  | opening
  | call (c : TurnCall) (now : UInt64)
  | failing (c : TurnCall) (now : UInt64) (f : Fault DataFile)
  | crashing (c : TurnCall) (now : UInt64) (f : Fault DataFile)

/-- The step of the system on an input, if there is one. -/
def TurnSystem.exec (m : TurnSystem) : TurnInput → Option (TurnEvent × TurnSystem)
  | .opening =>
      match TurnStore.openDir m.disk with
      | .error _ => none
      | .ok (s, d') => some (.opened, ⟨some s, d'⟩)
  | .call c now => do
      let s ← m.proc
      match s.entryOf now c, runCall (c.run now) s m.disk none with
      | .ok w, (.ok _, s', d') => if DataDir.Fits d' then some (.acked c now w, ⟨some s', d'⟩) else none
      | _, (.error e, s', d') => some (.rejected c now e, ⟨some s', d'⟩)
      | _, _ => none
  | .failing c now f => do
      let s ← m.proc
      match s.entryOf now c, runCall (c.run now) s m.disk (some f) with
      | .ok w, (.error _, s', d') =>
          if DataDir.Fits d' then some (.failed c now f w, ⟨some s', d'⟩) else none
      | _, _ => none
  | .crashing c now f => do
      let s ← m.proc
      match s.entryOf now c, runCall (c.run now) s m.disk (some f) with
      | .ok w, (.error _, _, d') =>
          if DataDir.Fits d' then some (.crashed c now f w, ⟨none, d'⟩) else none
      | _, _ => none

/-- A computed step is a step. -/
theorem TurnSystem.step_of_exec (m : TurnSystem) (i : TurnInput) (e : TurnEvent)
    (m' : TurnSystem) (h : m.exec i = some (e, m')) : TurnStep m e m' := by
  obtain ⟨proc, disk⟩ := m
  cases i with
  | opening =>
      simp only [TurnSystem.exec] at h
      split at h
      · exact absurd h (by simp)
      next ho =>
      obtain ⟨rfl, rfl⟩ := Prod.mk.inj (Option.some.inj h)
      exact .opened ho
  | call c now =>
      obtain ⟨s, rfl, h⟩ := Option.bind_eq_some_iff.mp h
      split at h
      next hw hrun =>
        split at h
        next hfit =>
          obtain ⟨rfl, rfl⟩ := Prod.mk.inj (Option.some.inj h)
          exact .acked hw hrun hfit
        · exact absurd h (by simp)
      next hrun =>
        obtain ⟨rfl, rfl⟩ := Prod.mk.inj (Option.some.inj h)
        exact .rejected hrun
      · exact absurd h (by simp)
  | failing c now f =>
      obtain ⟨s, rfl, h⟩ := Option.bind_eq_some_iff.mp h
      split at h
      next hw hrun =>
        split at h
        next hfit =>
          obtain ⟨rfl, rfl⟩ := Prod.mk.inj (Option.some.inj h)
          exact .failed hw hrun hfit
        · exact absurd h (by simp)
      · exact absurd h (by simp)
  | crashing c now f =>
      obtain ⟨s, rfl, h⟩ := Option.bind_eq_some_iff.mp h
      split at h
      next hw hrun =>
        split at h
        next hfit =>
          obtain ⟨rfl, rfl⟩ := Prod.mk.inj (Option.some.inj h)
          exact .crashed hw hrun hfit
        · exact absurd h (by simp)
      · exact absurd h (by simp)

/-- A run from inputs, with a property that is checked by computation. -/
theorem TurnSystem.exists_run (C : TurnSystem → TurnEvent → Prop)
    [∀ m e, Decidable (C m e)] (inputs : List TurnInput)
    (P : List TurnEvent → TurnSystem → Prop) [∀ es m, Decidable (P es m)]
    (h : ((execAll C TurnSystem.exec TurnSystem.initial inputs).any
      fun r => decide (P r.1 r.2)) = true) :
    ∃ es m, execAll C TurnSystem.exec TurnSystem.initial inputs = some (es, m) ∧
      Run (Guarded C TurnStep) TurnSystem.initial es m ∧ P es m :=
  exists_run_of_execAll C TurnSystem.step_of_exec TurnSystem.initial inputs P h

/-- An append to context `contextId` with an empty type id. -/
def plainAppend (contextId parentTurnId : UInt64) : TurnCall :=
  .appendTurn
    { contextId, parentTurnId, payloadHash := List.Vector.replicate 32 0, encoding := 1,
      declaredTypeId := "", declaredTypeVersion := 1, compression := 0,
      uncompressedLen := 0 }

/-! ### The journal of a run -/

/-- What an event has wholly written. -/
def TurnEvent.saved (e : TurnEvent) : Journal :=
  match e.write with
  | none => Journal.empty
  | some (w, stop) => w.saved stop

/-- What the calls of a run have wholly written. -/
def journalOf (es : List TurnEvent) : Journal where
  turns := es.flatMap fun e => e.saved.turns
  metas := es.flatMap fun e => e.saved.metas
  heads := es.flatMap fun e => e.saved.heads

theorem journalOf_concat (es : List TurnEvent) (e : TurnEvent) :
    journalOf (es ++ [e]) = journalOf es ++ e.saved := by
  simp only [journalOf, List.flatMap_append, List.flatMap_singleton]
  rfl

/-- The entries of the acknowledged calls of a run. -/
def ackedEntries (es : List TurnEvent) : List Entry :=
  es.filterMap fun
    | .acked _ _ w => some w
    | _ => none

end Cxdb
