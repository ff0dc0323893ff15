import Mathlib.Logic.Function.Basic
import Cxdb.ByteFormat

/-!
# Programs on a Disk That May Stop

A program keeps a value `μ` in memory and a family of append-only files on disk. Each
call runs against an optional `Fault`, which names the file whose write stops and after
how many of the bytes the call writes to that file; when all of them fit, the sync that
follows is what fails. So the faults of a call are exactly the ways in which its writes
can be cut off, in the middle of a record or between two of them.

The error value is a parameter: the library does not say how a program reports it.

## Main results

* `writeAll_writeAll`: two writes to one file are one write of the concatenation.
* `appendRecord_of_ne`, `appendRecord_of_eq`: what a synced write does when the fault is
  elsewhere, and when it is in this file.
* `appendRecord_append`: a record written in two parts before the sync.
* `runCall_bind`, `runCall_map`, `runCall_zoom`: calls made of calls.
* `KeepsFault.runCall_bind`: what comes after a call that syncs all it writes meets the same
  fault.
* `Grows.runCall`: programs only write behind what is in the files.
-/

namespace FaultyDisk

open ByteFormat

variable {φ ε μ α : Type} [DecidableEq φ]

/-- The write to `file` stops after `bytes` of the bytes a call puts into it, or the sync
after it fails. -/
structure Fault (φ : Type) where
  file : φ
  bytes : ℕ
  deriving DecidableEq, Repr

/-- Memory, files and the fault that is still to come. -/
structure World (φ μ : Type) where
  mem : μ
  disk : φ → Bytes
  fault : Option (Fault φ)

/-- A program that may fail, and then leaves memory and files as they are at that point. -/
abbrev DiskM (φ ε μ α : Type) := EStateM ε (World φ μ) α

/-- The value in memory. -/
def getMem : DiskM φ ε μ μ := fun w => .ok w.mem w

/-- Change the value in memory. -/
def modifyMem (g : μ → μ) : DiskM φ ε μ Unit := fun w => .ok () { w with mem := g w.mem }

/-- Seek to the end of a file; the offset is its length. -/
def seekEnd (file : φ) : DiskM φ ε μ ℕ := fun w => .ok (w.disk file).length w

/-- Write at the end of a file, or as far as the fault lets. -/
def writeAll (ioError : ε) (file : φ) (bs : Bytes) : DiskM φ ε μ Unit := fun w =>
  match w.fault with
  | none => .ok () { w with disk := Function.update w.disk file (w.disk file ++ bs) }
  | some f =>
      if f.file = file then
        if bs.length ≤ f.bytes then
          .ok () { w with
            disk := Function.update w.disk file (w.disk file ++ bs)
            fault := some ⟨file, f.bytes - bs.length⟩ }
        else
          .error ioError { w with
            disk := Function.update w.disk file (w.disk file ++ bs.take f.bytes)
            fault := none }
      else
        .ok () { w with disk := Function.update w.disk file (w.disk file ++ bs) }

/-- Sync a file; the fault in it, if any, comes here at the latest. -/
def syncAll (ioError : ε) (file : φ) : DiskM φ ε μ Unit := fun w =>
  match w.fault with
  | none => .ok () w
  | some f => if f.file = file then .error ioError { w with fault := none } else .ok () w

/-- Write a record and sync the file. -/
def appendRecord (ioError : ε) (file : φ) (bs : Bytes) : DiskM φ ε μ Unit := do
  writeAll ioError file bs
  syncAll ioError file

/-- A call against a fault: the outcome, and memory and files afterwards. -/
def runCall (x : DiskM φ ε μ α) (mem : μ) (disk : φ → Bytes) (fault : Option (Fault φ)) :
    Except ε α × μ × (φ → Bytes) :=
  match x ⟨mem, disk, fault⟩ with
  | .ok a w => (.ok a, w.mem, w.disk)
  | .error e w => (.error e, w.mem, w.disk)

/-- Run a program on part of the memory. -/
def zoom {ν : Type} (get : μ → ν) (set : μ → ν → μ) (x : DiskM φ ε ν α) : DiskM φ ε μ α :=
  fun w =>
    match x ⟨get w.mem, w.disk, w.fault⟩ with
    | .ok a v => .ok a ⟨set w.mem v.mem, v.disk, v.fault⟩
    | .error e v => .error e ⟨set w.mem v.mem, v.disk, v.fault⟩

/-- Two writes to one file in a row are one write. -/
theorem writeAll_writeAll (ioError : ε) (file : φ) (a b : Bytes) :
    (do writeAll ioError file a; writeAll ioError file b : DiskM φ ε μ Unit) =
      writeAll ioError file (a ++ b) := by
  funext w
  obtain ⟨mem, disk, _ | ⟨file', n⟩⟩ := w
  · simp [writeAll, bind, EStateM.bind]
  · by_cases hf : file' = file
    · by_cases ha : a.length ≤ n
      · by_cases hb : b.length ≤ n - a.length
        · have hab : a.length + b.length ≤ n := by omega
          simp [writeAll, bind, EStateM.bind, hf, ha, hb, hab, Nat.sub_sub]
        · have hab : ¬ a.length + b.length ≤ n := by omega
          simp [writeAll, bind, EStateM.bind, hf, ha, hb, hab, List.take_append,
            List.take_of_length_le ha]
      · have hab : ¬ a.length + b.length ≤ n := by omega
        have hn : n ≤ a.length := by omega
        simp [writeAll, bind, EStateM.bind, hf, ha, hab, List.take_append, Nat.sub_eq_zero_of_le hn]
    · simp [writeAll, bind, EStateM.bind, hf]

/-- A record written in two parts before the sync. -/
theorem appendRecord_append (ioError : ε) (file : φ) (a b : Bytes) :
    (do writeAll ioError file a
        writeAll ioError file b
        syncAll ioError file : DiskM φ ε μ Unit) = appendRecord ioError file (a ++ b) := by
  rw [appendRecord, ← writeAll_writeAll, bind_assoc]

/-! ### The outcome of a synced write -/

@[simp] theorem appendRecord_none (ioError : ε) (file : φ) (bs : Bytes) (mem : μ)
    (disk : φ → Bytes) :
    appendRecord ioError file bs ⟨mem, disk, none⟩ =
      .ok () ⟨mem, Function.update disk file (disk file ++ bs), none⟩ := rfl

/-- A synced write the fault is not in. -/
@[simp] theorem appendRecord_of_ne (ioError : ε) {file file' : φ} (bs : Bytes) (mem : μ)
    (disk : φ → Bytes) {n : ℕ} (h : file' ≠ file) :
    appendRecord ioError file bs ⟨mem, disk, some ⟨file', n⟩⟩ =
      .ok () ⟨mem, Function.update disk file (disk file ++ bs), some ⟨file', n⟩⟩ := by
  simp [appendRecord, writeAll, syncAll, bind, EStateM.bind, h]

/-- A synced write the fault is in: the file gets the bytes up to it. -/
@[simp] theorem appendRecord_of_eq (ioError : ε) (file : φ) (bs : Bytes) (mem : μ)
    (disk : φ → Bytes) (n : ℕ) :
    appendRecord ioError file bs ⟨mem, disk, some ⟨file, n⟩⟩ =
      .error ioError ⟨mem, Function.update disk file (disk file ++ bs.take n), none⟩ := by
  by_cases hn : bs.length ≤ n
  · simp [appendRecord, writeAll, syncAll, bind, EStateM.bind, hn,
      List.take_of_length_le hn]
  · simp [appendRecord, writeAll, bind, EStateM.bind, hn]

/-! ### Calls made of calls -/

omit [DecidableEq φ] in
/-- One call after another, on what the first leaves of memory, files and fault. -/
theorem runCall_bind {β : Type} (x : DiskM φ ε μ α) (g : α → DiskM φ ε μ β) (mem : μ)
    (disk : φ → Bytes) (fault : Option (Fault φ)) :
    runCall (x >>= g) mem disk fault =
      match x ⟨mem, disk, fault⟩ with
      | .ok a w => runCall (g a) w.mem w.disk w.fault
      | .error e w => (.error e, w.mem, w.disk) := by
  simp only [runCall, bind, EStateM.bind]
  cases x ⟨mem, disk, fault⟩ <;> rfl

omit [DecidableEq φ] in
/-- A call with a wrapped reply. -/
theorem runCall_map {β : Type} (f : α → β) (x : DiskM φ ε μ α) (mem : μ) (disk : φ → Bytes)
    (fault : Option (Fault φ)) :
    runCall (f <$> x) mem disk fault =
      ((runCall x mem disk fault).1.map f, (runCall x mem disk fault).2) := by
  simp only [runCall, Functor.map, EStateM.map]
  cases x ⟨mem, disk, fault⟩ <;> rfl

omit [DecidableEq φ] in
/-- A call on part of the memory. -/
theorem runCall_zoom {ν : Type} (get : μ → ν) (set : μ → ν → μ) (x : DiskM φ ε ν α) (mem : μ)
    (disk : φ → Bytes) (fault : Option (Fault φ)) :
    runCall (zoom get set x) mem disk fault =
      ((runCall x (get mem) disk fault).1, set mem (runCall x (get mem) disk fault).2.1,
        (runCall x (get mem) disk fault).2.2) := by
  simp only [runCall, zoom]
  cases x ⟨get mem, disk, fault⟩ <;> rfl

/-! ### Calls that sync all they write -/

/-- A call that returns has left the fault where it was. -/
def KeepsFault (x : DiskM φ ε μ α) : Prop :=
  ∀ w a w', x w = .ok a w' → w'.fault = w.fault

namespace KeepsFault

variable {β ν : Type} {x : DiskM φ ε μ α}

omit [DecidableEq φ]

theorem pure (a : α) : KeepsFault (Pure.pure a : DiskM φ ε μ α) := by
  rintro w _ _ ⟨⟩
  rfl

theorem getMem : KeepsFault (getMem : DiskM φ ε μ μ) := by
  rintro w _ _ ⟨⟩
  rfl

theorem modifyMem (g : μ → μ) : KeepsFault (modifyMem g : DiskM φ ε μ Unit) := by
  rintro w _ _ ⟨⟩
  rfl

theorem seekEnd (file : φ) : KeepsFault (seekEnd file : DiskM φ ε μ ℕ) := by
  rintro w _ _ ⟨⟩
  rfl

theorem bind {g : α → DiskM φ ε μ β} (hx : KeepsFault x) (hg : ∀ a, KeepsFault (g a)) :
    KeepsFault (x >>= g) := by
  intro w b w' h
  simp only [Bind.bind, EStateM.bind] at h
  cases hrun : x w with
  | ok a w₁ =>
      rw [hrun] at h
      exact (hg a w₁ b w' h).trans (hx w a w₁ hrun)
  | error e w₁ =>
      rw [hrun] at h
      cases h

theorem map (f : α → β) (hx : KeepsFault x) : KeepsFault (f <$> x) := by
  intro w b w' h
  simp only [Functor.map, EStateM.map] at h
  cases hrun : x w with
  | ok a w₁ =>
      rw [hrun] at h
      cases h
      exact hx w a _ hrun
  | error e w₁ =>
      rw [hrun] at h
      cases h

theorem zoom {get : μ → ν} {set : μ → ν → μ} {x : DiskM φ ε ν α} (hx : KeepsFault x) :
    KeepsFault (zoom get set x) := by
  intro w a w' h
  simp only [FaultyDisk.zoom] at h
  cases hrun : x ⟨get w.mem, w.disk, w.fault⟩ with
  | ok b w₁ =>
      rw [hrun] at h
      cases h
      exact hx ⟨get w.mem, w.disk, w.fault⟩ _ w₁ hrun
  | error e w₁ =>
      rw [hrun] at h
      cases h

/-- **After a call that syncs all it writes**, the next one meets the same fault. -/
theorem runCall_bind (hx : KeepsFault x) (g : α → DiskM φ ε μ β) (mem : μ) (disk : φ → Bytes)
    (fault : Option (Fault φ)) :
    runCall (x >>= g) mem disk fault =
      match runCall x mem disk fault with
      | (.ok a, mem', disk') => runCall (g a) mem' disk' fault
      | (.error e, mem', disk') => (.error e, mem', disk') := by
  rw [FaultyDisk.runCall_bind]
  simp only [runCall]
  cases hrun : x ⟨mem, disk, fault⟩ with
  | ok a w =>
      obtain rfl : w.fault = fault := hx _ a w hrun
      rfl
  | error e w => rfl

end KeepsFault

/-- A synced write that returns has not met the fault. -/
theorem KeepsFault.appendRecord (ioError : ε) (file : φ) (bs : Bytes) :
    KeepsFault (appendRecord ioError file bs : DiskM φ ε μ Unit) := by
  rintro ⟨mem, disk, _ | ⟨file', n⟩⟩ a w' h
  · rw [appendRecord_none] at h
    cases h
    rfl
  · by_cases hf : file' = file
    · subst hf
      rw [appendRecord_of_eq] at h
      cases h
    · rw [appendRecord_of_ne _ _ _ _ hf] at h
      cases h
      rfl

/-! ### Calls that only append -/

/-- What a program leaves of memory, files and fault. -/
def left : EStateM.Result ε (World φ μ) α → World φ μ
  | .ok _ w => w
  | .error _ w => w

/-- A program that leaves every file beginning with what was in it. -/
def Grows (x : DiskM φ ε μ α) : Prop :=
  ∀ w file, w.disk file <+: (left (x w)).disk file

namespace Grows

variable {β ν : Type} {x : DiskM φ ε μ α}

theorem writeAll (ioError : ε) (file : φ) (bs : Bytes) :
    Grows (writeAll ioError file bs : DiskM φ ε μ Unit) := by
  have hupdate : ∀ (disk : φ → Bytes) (more : Bytes) (file' : φ),
      disk file' <+: Function.update disk file (disk file ++ more) file' := by
    intro disk more file'
    by_cases hf : file' = file
    · subst hf
      simp
    · simp [Function.update_of_ne hf]
  rintro ⟨mem, disk, fault⟩ file'
  rw [FaultyDisk.writeAll]
  split
  · exact hupdate _ _ _
  · split_ifs
    all_goals exact hupdate _ _ _

theorem syncAll (ioError : ε) (file : φ) :
    Grows (syncAll ioError file : DiskM φ ε μ Unit) := by
  rintro ⟨mem, disk, fault⟩ file'
  rw [FaultyDisk.syncAll]
  split
  · exact List.prefix_refl _
  · split_ifs
    all_goals exact List.prefix_refl _

omit [DecidableEq φ]

theorem pure (a : α) : Grows (Pure.pure a : DiskM φ ε μ α) := fun _ _ => List.prefix_refl _

theorem getMem : Grows (getMem : DiskM φ ε μ μ) := fun _ _ => List.prefix_refl _

theorem modifyMem (g : μ → μ) : Grows (modifyMem g : DiskM φ ε μ Unit) :=
  fun _ _ => List.prefix_refl _

theorem seekEnd (file : φ) : Grows (seekEnd file : DiskM φ ε μ ℕ) :=
  fun _ _ => List.prefix_refl _

theorem bind {g : α → DiskM φ ε μ β} (hx : Grows x) (hg : ∀ a, Grows (g a)) :
    Grows (x >>= g) := by
  intro w file
  have hw := hx w file
  simp only [Bind.bind, EStateM.bind]
  cases hrun : x w with
  | ok a w₁ =>
      rw [hrun] at hw
      exact hw.trans (hg a w₁ file)
  | error e w₁ =>
      rw [hrun] at hw
      exact hw

theorem map (f : α → β) (hx : Grows x) : Grows (f <$> x) := by
  intro w file
  have hw := hx w file
  simp only [Functor.map, EStateM.map]
  cases hrun : x w with
  | ok a w₁ =>
      rw [hrun] at hw
      exact hw
  | error e w₁ =>
      rw [hrun] at hw
      exact hw

theorem zoom {get : μ → ν} {set : μ → ν → μ} {x : DiskM φ ε ν α} (hx : Grows x) :
    Grows (zoom get set x) := by
  intro w file
  have hw := hx ⟨get w.mem, w.disk, w.fault⟩ file
  simp only [FaultyDisk.zoom]
  cases hrun : x ⟨get w.mem, w.disk, w.fault⟩ with
  | ok b w₁ =>
      rw [hrun] at hw
      exact hw
  | error e w₁ =>
      rw [hrun] at hw
      exact hw

/-- **A call leaves every file beginning with what was in it.** -/
theorem runCall (hx : Grows x) (mem : μ) (disk : φ → Bytes) (fault : Option (Fault φ))
    (file : φ) : disk file <+: (runCall x mem disk fault).2.2 file := by
  have hw := hx ⟨mem, disk, fault⟩ file
  rw [FaultyDisk.runCall]
  cases hrun : x ⟨mem, disk, fault⟩ with
  | ok a w =>
      rw [hrun] at hw
      exact hw
  | error e w =>
      rw [hrun] at hw
      exact hw

end Grows

/-- A synced write appends. -/
theorem Grows.appendRecord (ioError : ε) (file : φ) (bs : Bytes) :
    Grows (appendRecord ioError file bs : DiskM φ ε μ Unit) :=
  (Grows.writeAll ioError file bs).bind fun _ => Grows.syncAll ioError file

end FaultyDisk
