import Cxdb.ByteFormat
import Cxdb.Transition

/-!
# Values That Are Written Out after Each Change

Tasks change a value that they share. A task changes it under a lock, takes a copy of it under
the lock again, and writes the copy to a file outside of it: it empties the file, and then writes
its copy piece by piece, at its own place in the file. Nothing orders what two tasks do after
they have taken their copies, so that an old copy can be written over a new one, or into it.

## Main results

* `Settles.step`: what a step keeps if it is in order.
* `file_of_run`: once all tasks are done the file has the value, if every step was in order.
-/

namespace PersistedValue

open ByteFormat Transition

variable {ι α ν : Type} [DecidableEq ι]

/-- A task that has the file open: what it writes, and how much of it is written. -/
structure Writer (ι : Type) where
  task : ι
  payload : Bytes
  offset : ℕ
  deriving DecidableEq

/-- The value, the file, and where the tasks are: those that have changed the value and not yet
copied it, those that have copied it, in the order of their copies, and those that write. -/
structure System (ι α : Type) where
  value : α
  file : Bytes
  changed : List ι
  copied : List (ι × α)
  writers : List (Writer ι)

/-- The steps of the tasks. A failed task does not go on. -/
inductive Event (ι ν : Type) where
  | change (task : ι) (note : ν)
  | copy (task : ι)
  | openFile (task : ι)
  | writePiece (task : ι) (n : ℕ)
  | closeFile (task : ι)
  | fail (task : ι)
  deriving DecidableEq

/-- Write bytes at a place in a file; what lies between its end and this place is zero. -/
def writeAt (file : Bytes) (offset : ℕ) (bs : Bytes) : Bytes :=
  file.take offset ++ List.replicate (offset - file.length) 0 ++ bs ++
    file.drop (offset + bs.length)

/-- The next `n` bytes that a task writes. -/
def Writer.piece (w : Writer ι) (n : ℕ) : Bytes := (w.payload.drop w.offset).take n

/-- A task between its change and its end. -/
def System.Active (s : System ι α) (task : ι) : Prop :=
  task ∈ s.changed ∨ task ∈ s.copied.map Prod.fst ∨ task ∈ s.writers.map Writer.task

instance (s : System ι α) (task : ι) : Decidable (s.Active task) :=
  inferInstanceAs (Decidable (_ ∨ _))

variable (apply : ν → α → α) (serialize : α → Bytes)

/-- What a step does, if it can happen. -/
def System.step (s : System ι α) : Event ι ν → Option (System ι α)
  | .change task note =>
      if s.Active task then none
      else some { s with value := apply note s.value, changed := task :: s.changed }
  | .copy task =>
      if task ∈ s.changed then
        some { s with
          changed := s.changed.erase task
          copied := s.copied ++ [(task, s.value)] }
      else none
  | .openFile task =>
      match s.copied.lookup task with
      | some copy =>
          some { s with
            file := []
            copied := s.copied.eraseP fun c => c.1 = task
            writers := ⟨task, serialize copy, 0⟩ :: s.writers }
      | none => none
  | .writePiece task n =>
      match s.writers.find? fun w => w.task = task with
      | some w =>
          if 0 < n ∧ w.offset + n ≤ w.payload.length then
            some { s with
              file := writeAt s.file w.offset (w.piece n)
              writers := s.writers.map fun w' =>
                if w'.task = task then { w' with offset := w'.offset + n } else w' }
          else none
      | none => none
  | .closeFile task =>
      match s.writers.find? fun w => w.task = task with
      | some w =>
          if w.offset = w.payload.length then
            some { s with writers := s.writers.eraseP fun w => w.task = task }
          else none
      | none => none
  | .fail task =>
      if task ∈ s.copied.map Prod.fst ∨ task ∈ s.writers.map Writer.task then
        some { s with
          copied := s.copied.eraseP fun c => c.1 = task
          writers := s.writers.eraseP fun w => w.task = task }
      else none

/-- No task is under way. -/
def System.Idle (s : System ι α) : Prop := s.changed = [] ∧ s.copied = [] ∧ s.writers = []

instance (s : System ι α) : Decidable s.Idle := inferInstanceAs (Decidable (_ ∧ _))

/-- A value that has been written out. -/
def System.start (value : α) : System ι α where
  value
  file := serialize value
  changed := []
  copied := []
  writers := []

/-- Another task than this one has the newest copy. -/
def System.NewerThan (s : System ι α) (task : ι) : Prop :=
  ∃ newest ∈ s.copied.getLast?, newest.1 ≠ task

instance (s : System ι α) (task : ι) : Decidable (s.NewerThan task) :=
  inferInstanceAs (Decidable (∃ newest ∈ s.copied.getLast?, newest.1 ≠ task))

/-- **A step in order.** As long as a task is about to copy the value, or has a newer copy that
is not written, any task may open the file or fail. A task with the newest copy must not fail,
and it may open the file when no other task writes or is about to. -/
def System.InOrder (s : System ι α) : Event ι ν → Prop
  | .openFile task =>
      s.changed ≠ [] ∨ s.NewerThan task ∨ (s.writers = [] ∧ s.copied.length = 1)
  | .fail task => s.changed ≠ [] ∨ s.NewerThan task
  | _ => True

instance (s : System ι α) (e : Event ι ν) : Decidable (s.InOrder e) :=
  match e with
  | .openFile task =>
      inferInstanceAs (Decidable (_ ∨ s.NewerThan task ∨ (_ ∧ s.copied.length = 1)))
  | .fail task => inferInstanceAs (Decidable (_ ∨ s.NewerThan task))
  | .change _ _ | .copy _ | .writePiece _ _ | .closeFile _ => inferInstanceAs (Decidable True)

/-- **The invariant**: unless a task is about to copy the value, the newest copy is the value,
or the only task that writes writes it, or it is in the file. -/
def System.Settles (s : System ι α) : Prop :=
  s.changed = [] →
    match s.copied.getLast? with
    | some newest => newest.2 = s.value
    | none =>
        (s.writers = [] ∧ s.file = serialize s.value) ∨
          ∃ w, s.writers = [w] ∧ w.payload = serialize s.value ∧ w.offset ≤ w.payload.length ∧
            s.file = w.payload.take w.offset

variable {apply : ν → α → α} {serialize : α → Bytes}

omit [DecidableEq ι] in
theorem settles_start (value : α) : (System.start (ι := ι) serialize value).Settles serialize :=
  fun _ => Or.inl ⟨rfl, rfl⟩

omit [DecidableEq ι] in
/-- Once all tasks are done the invariant is about the file. -/
theorem System.Settles.file_eq {s : System ι α} (h : s.Settles serialize) (hidle : s.Idle) :
    s.file = serialize s.value := by
  obtain ⟨hchanged, hcopied, hwriters⟩ := hidle
  have hs := h hchanged
  rw [hcopied] at hs
  rcases hs with ⟨-, hfile⟩ | ⟨w, hw, -⟩
  · exact hfile
  · rw [hwriters] at hw
    cases hw

theorem writeAt_take {payload : Bytes} {offset n : ℕ} (h : offset + n ≤ payload.length) :
    writeAt (payload.take offset) offset ((payload.drop offset).take n) =
      payload.take (offset + n) := by
  have hlen : (payload.take offset).length = offset := by
    rw [List.length_take]
    omega
  have hdrop : (payload.take offset).drop (offset + ((payload.drop offset).take n).length) = [] :=
    List.drop_of_length_le (by omega)
  rw [writeAt, hdrop, hlen, List.take_of_length_le hlen.le, Nat.sub_self, List.replicate_zero,
    List.append_nil, List.append_nil, List.take_add]

/-- The newest copy stays when a task with another one goes on or fails. -/
theorem getLast?_eraseP {s : System ι α} {task : ι} (h : s.NewerThan task) :
    (s.copied.eraseP fun c => c.1 = task).getLast? = s.copied.getLast? := by
  obtain ⟨newest, hlast, hne⟩ := h
  obtain ⟨older, hcopied⟩ := List.getLast?_eq_some_iff.mp hlast
  have herase : s.copied.eraseP (fun c => c.1 = task) =
      older.eraseP (fun c => c.1 = task) ++ [newest] := by
    rw [hcopied, List.eraseP_append]
    split_ifs with hany
    · rfl
    · have hnot : ∀ c ∈ older, ¬decide (c.1 = task) = true := fun c hc heq =>
        hany (List.any_eq_true.mpr ⟨c, hc, heq⟩)
      rw [List.eraseP_of_forall_not hnot, List.eraseP_of_forall_not (by simpa using hne)]
  rw [herase, hlast, List.getLast?_concat]

/-- Where one task writes, it is the one that is found. -/
theorem find?_only {v w : Writer ι} {task : ι}
    (h : [v].find? (fun w => w.task = task) = some w) : v = w ∧ v.task = task := by
  rw [List.find?_singleton] at h
  split_ifs at h with htask
  exact ⟨Option.some.inj h, by simpa using htask⟩

/-- A step of a task that writes: the newest copy stays, and so does the invariant if it stays
where no other task writes. -/
theorem System.Settles.writes {s s' : System ι α} {task : ι} {w : Writer ι}
    (h : s.Settles serialize) (hvalue : s'.value = s.value) (hchanged : s'.changed = s.changed)
    (hcopied : s'.copied = s.copied)
    (hfind : (s.writers.find? fun w => w.task = task) = some w)
    (honly : s.writers = [w] → w.task = task → w.payload = serialize s.value →
      s.file = w.payload.take w.offset →
      (s'.writers = [] ∧ s'.file = serialize s.value) ∨
        ∃ w', s'.writers = [w'] ∧ w'.payload = serialize s.value ∧
          w'.offset ≤ w'.payload.length ∧ s'.file = w'.payload.take w'.offset) :
    s'.Settles serialize := by
  intro hnone
  have hs := h (hchanged ▸ hnone)
  rw [hcopied, hvalue]
  cases hlast : s.copied.getLast? with
  | some newest =>
      rw [hlast] at hs
      exact hs
  | none =>
      rw [hlast] at hs
      rcases hs with ⟨hwriters, -⟩ | ⟨v, hwriters, hpayload, -, hfile⟩
      · rw [hwriters] at hfind
        cases hfind
      · obtain ⟨rfl, htask⟩ := find?_only (hwriters ▸ hfind)
        exact honly hwriters htask hpayload hfile

/-- **A step in order** keeps the invariant. -/
theorem System.Settles.step {s s' : System ι α} {e : Event ι ν} (h : s.Settles serialize)
    (horder : s.InOrder e) (hstep : s.step apply serialize e = some s') :
    s'.Settles serialize := by
  cases e with
  | change task note =>
      rw [System.step] at hstep
      split_ifs at hstep
      obtain rfl := Option.some.inj hstep
      exact fun hchanged => absurd hchanged (List.cons_ne_nil _ _)
  | copy task =>
      rw [System.step] at hstep
      split_ifs at hstep
      obtain rfl := Option.some.inj hstep
      intro _
      simp only [List.getLast?_concat]
  | openFile task =>
      rw [System.step] at hstep
      split at hstep
      · next copy hcopy =>
        obtain rfl := Option.some.inj hstep
        intro hchanged
        rcases horder with hne | hnewer | ⟨hwriters, hlen⟩
        · exact absurd hchanged hne
        · have hs := h hchanged
          obtain ⟨newest, hlast, -⟩ := id hnewer
          simp only [getLast?_eraseP hnewer]
          rw [hlast] at hs ⊢
          exact hs
        · obtain ⟨⟨task', copy'⟩, hcopied⟩ := List.length_eq_one_iff.mp hlen
          have hs := h hchanged
          rw [hcopied] at hs hcopy
          obtain rfl : copy' = s.value := hs
          rw [List.lookup_cons] at hcopy
          split at hcopy
          · next htask =>
            obtain rfl := Option.some.inj hcopy
            have herase : (s.copied.eraseP fun c => c.1 = task) = [] := by
              rw [hcopied, List.eraseP_cons_of_pos (by simpa using (beq_iff_eq.mp htask).symm)]
            simp only [herase, hwriters, List.getLast?_nil]
            exact Or.inr ⟨_, rfl, rfl, Nat.zero_le _, rfl⟩
          · cases hcopy
      · cases hstep
  | writePiece task n =>
      rw [System.step] at hstep
      split at hstep
      · next w hfind =>
        split_ifs at hstep with hfits
        obtain rfl := Option.some.inj hstep
        refine h.writes rfl rfl rfl hfind fun hwriters htask hpayload hfile => Or.inr ?_
        refine ⟨{ w with offset := w.offset + n }, ?_, hpayload, hfits.2, ?_⟩
        · rw [hwriters, List.map_singleton, if_pos htask]
        · rw [hfile]
          exact writeAt_take hfits.2
      · cases hstep
  | closeFile task =>
      rw [System.step] at hstep
      split at hstep
      · next w hfind =>
        split_ifs at hstep with hfull
        obtain rfl := Option.some.inj hstep
        refine h.writes rfl rfl rfl hfind fun hwriters htask hpayload hfile => Or.inl ⟨?_, ?_⟩
        · rw [hwriters, List.eraseP_cons_of_pos (by simpa using htask)]
        · rw [hfile, hfull, List.take_length, hpayload]
      · cases hstep
  | fail task =>
      rw [System.step] at hstep
      split_ifs at hstep
      obtain rfl := Option.some.inj hstep
      intro hchanged
      rcases horder with hne | hnewer
      · exact absurd hchanged hne
      · have hs := h hchanged
        obtain ⟨newest, hlast, -⟩ := id hnewer
        simp only [getLast?_eraseP hnewer]
        rw [hlast] at hs ⊢
        exact hs

/-- **Once all tasks are done the file has the value**, if every step was in order. -/
theorem file_of_run {value : α} {es : List (Event ι ν)} {s : System ι α}
    (h : Run (Guarded System.InOrder (Steps (System.step apply serialize)))
      (System.start serialize value) es s) (hidle : s.Idle) : s.file = serialize s.value := by
  have hsettles : s.Settles serialize :=
    h.invariant (I := fun _ s => s.Settles serialize) (settles_start value)
      fun _ _ _ _ hs hstep => hs.step hstep.1 hstep.2
  exact hsettles.file_eq hidle

end PersistedValue
