import Mathlib.Data.List.Basic

/-!
# Reading Lines From a Buffered Stream

A reader gets a stream in pieces of any size, keeps what it has not used in a buffer, and
takes one line after another, each with the delimiter that ends it. How the stream was cut
makes no difference to what it finds.

## Main results

* `Source.readLine_eq`: a line is what stands before the first delimiter of the stream.
* `Source.loop_eq`: a loop over the lines of a stream is a loop over the lines of its
  elements.
* `splitLines_flatMap`: the lines are those that the stream was written in.
-/

namespace LineReader

variable {α σ ρ : Type}

/-- What a read returns while the stream goes on. -/
abbrev Piece (α : Type) := {as : List α // as ≠ []}

/-- A stream: what is buffered, and what the reads to come will return. -/
structure Source (α : Type) where
  buffer : List α
  reads : List (Piece α)

/-- Everything that the stream still holds. -/
def Source.elements (src : Source α) : List α :=
  src.buffer ++ (src.reads.map Subtype.val).flatten

/-- A stream of which nothing has been read. -/
def Source.ofReads (reads : List (Piece α)) : Source α := ⟨[], reads⟩

variable [DecidableEq α]

/-- The elements up to the first delimiter, and those behind it. -/
def splitLine (d : α) : List α → Option (List α × List α)
  | [] => none
  | a :: as => if a = d then some ([a], as) else (splitLine d as).map fun p => (a :: p.1, p.2)

/-- Look for the delimiter in the buffer, and read on until it is found: a line and the
stream behind it, or what was left of a stream that is over. -/
def readUntil (d : α) (buffer : List α) : List (Piece α) → List α × Option (Source α)
  | [] =>
      match splitLine d buffer with
      | some (line, rest) => (line, some ⟨rest, []⟩)
      | none => (buffer, none)
  | piece :: reads =>
      match splitLine d buffer with
      | some (line, rest) => (line, some ⟨rest, piece :: reads⟩)
      | none =>
          let p := readUntil d piece.val reads
          (buffer ++ p.1, p.2)

def Source.readLine (d : α) (src : Source α) : List α × Option (Source α) :=
  readUntil d src.buffer src.reads

/-! ### One line -/

theorem splitLine_append (d : α) (as bs : List α) :
    splitLine d (as ++ bs) =
      match splitLine d as with
      | some (line, rest) => some (line, rest ++ bs)
      | none => (splitLine d bs).map fun p => (as ++ p.1, p.2) := by
  induction as with
  | nil => simp [splitLine]
  | cons a as ih =>
      rw [List.cons_append, splitLine, splitLine]
      by_cases ha : a = d
      · simp [ha]
      · rw [if_neg ha, if_neg ha, ih]
        cases splitLine d as with
        | some p => rfl
        | none => simp [Option.map_map, Function.comp_def]

/-- **A line does not depend on how the stream is cut.** -/
theorem readUntil_eq (d : α) (buffer : List α) (reads : List (Piece α)) :
    match splitLine d (buffer ++ (reads.map Subtype.val).flatten) with
    | some (line, rest) => ∃ src, readUntil d buffer reads = (line, some src) ∧
        src.elements = rest
    | none => readUntil d buffer reads = (buffer ++ (reads.map Subtype.val).flatten, none) := by
  induction reads generalizing buffer with
  | nil =>
      rw [List.map_nil, List.flatten_nil, List.append_nil, readUntil]
      cases h : splitLine d buffer with
      | none => rfl
      | some p => exact ⟨_, rfl, by simp [Source.elements]⟩
  | cons piece reads ih =>
      have ih := ih piece.val
      rw [splitLine_append, readUntil, List.map_cons, List.flatten_cons]
      cases h : splitLine d buffer with
      | some p => exact ⟨_, rfl, rfl⟩
      | none =>
          cases hrest : splitLine d (piece.val ++ (reads.map Subtype.val).flatten) with
          | some p =>
              rw [hrest] at ih
              obtain ⟨src, hread, hsrc⟩ := ih
              exact ⟨src, by rw [hread], hsrc⟩
          | none =>
              rw [hrest] at ih
              simp only [Option.map_none, ih]

theorem Source.readLine_eq (d : α) (src : Source α) :
    match splitLine d src.elements with
    | some (line, rest) => ∃ src', src.readLine d = (line, some src') ∧ src'.elements = rest
    | none => src.readLine d = (src.elements, none) :=
  readUntil_eq d src.buffer src.reads

/-- A line takes at least its delimiter. -/
theorem splitLine_length {d : α} {as line rest : List α}
    (h : splitLine d as = some (line, rest)) : rest.length < as.length := by
  induction as generalizing line with
  | nil => cases h
  | cons a as ih =>
      rw [splitLine] at h
      split at h
      · obtain ⟨-, rfl⟩ := Prod.mk.inj (Option.some.inj h)
        exact Nat.lt_succ_self _
      · obtain ⟨p, hp, heq⟩ := Option.map_eq_some_iff.mp h
        obtain ⟨-, rfl⟩ := Prod.mk.inj heq
        exact Nat.lt_succ_of_lt (ih hp)

theorem Source.readLine_some {d : α} {src src' : Source α} {line : List α}
    (h : src.readLine d = (line, some src')) :
    splitLine d src.elements = some (line, src'.elements) := by
  have heq := src.readLine_eq d
  cases hs : splitLine d src.elements with
  | none =>
      rw [hs, h] at heq
      cases heq
  | some p =>
      rw [hs] at heq
      obtain ⟨src'', hread, hsrc⟩ := heq
      obtain ⟨hline, hsome⟩ := Prod.mk.inj (h.symm.trans hread)
      rw [Option.some.inj hsome, hline, hsrc]

theorem Source.readLine_none {d : α} {src : Source α} {line : List α}
    (h : src.readLine d = (line, none)) :
    splitLine d src.elements = none ∧ line = src.elements := by
  have heq := src.readLine_eq d
  cases hs : splitLine d src.elements with
  | none =>
      rw [hs, h] at heq
      exact ⟨rfl, (Prod.mk.inj heq).1⟩
  | some p =>
      rw [hs] at heq
      obtain ⟨src', hread, -⟩ := heq
      cases (Prod.mk.inj (h.symm.trans hread)).2

theorem Source.readLine_length {d : α} {src src' : Source α} {line : List α}
    (h : src.readLine d = (line, some src')) :
    src'.elements.length < src.elements.length :=
  splitLine_length (Source.readLine_some h)

/-! ### All lines -/

/-- Take one line after another: `step` may stop with a result, and `finish` makes one of
what stands behind the last delimiter when the stream is over. -/
def Source.loop (d : α) (step : σ → List α → Except ρ σ) (finish : σ → List α → ρ)
    (src : Source α) (s : σ) : ρ :=
  match _h : src.readLine d with
  | (line, none) => finish s line
  | (line, some src') =>
    match step s line with
    | .error r => r
    | .ok s' => src'.loop d step finish s'
termination_by src.elements.length
decreasing_by exact Source.readLine_length _h

/-- The lines of a stream, and what stands behind the last one. -/
def splitLines (d : α) : List α → List (List α) × List α
  | [] => ([], [])
  | a :: as =>
      let p := splitLines d as
      if a = d then ([a] :: p.1, p.2)
      else
        match p.1 with
        | [] => ([], a :: p.2)
        | line :: lines => ((a :: line) :: lines, p.2)

theorem splitLines_eq (d : α) (as : List α) :
    splitLines d as =
      match splitLine d as with
      | none => ([], as)
      | some (line, rest) => (line :: (splitLines d rest).1, (splitLines d rest).2) := by
  induction as with
  | nil => rfl
  | cons a as ih =>
      rw [splitLines, splitLine]
      by_cases ha : a = d
      · simp [ha]
      · rw [if_neg ha, if_neg ha, ih]
        cases splitLine d as with
        | none => rfl
        | some p => rfl

/-- A line ends with the delimiter, and what stands behind the last one has none. -/
theorem splitLines_ends (d : α) (as : List α) :
    (∀ line ∈ (splitLines d as).1, line.getLast? = some d) ∧ d ∉ (splitLines d as).2 := by
  induction as with
  | nil => simp [splitLines]
  | cons a as ih =>
      obtain ⟨hlines, hrest⟩ := ih
      rw [splitLines]
      by_cases ha : a = d
      · simpa [ha] using ⟨hlines, hrest⟩
      · rw [if_neg ha]
        cases h : (splitLines d as).1 with
        | nil => simpa [Ne.symm ha] using hrest
        | cons line lines =>
            rw [h] at hlines
            obtain ⟨hline, hlines⟩ := List.forall_mem_cons.mp hlines
            refine ⟨List.forall_mem_cons.mpr ⟨?_, hlines⟩, hrest⟩
            rw [List.getLast?_cons, hline]
            rfl

/-- A line, and the lines behind it. -/
theorem splitLines_append {d : α} {line : List α} (h : d ∉ line) (rest : List α) :
    splitLines d (line ++ d :: rest) =
      ((line ++ [d]) :: (splitLines d rest).1, (splitLines d rest).2) := by
  induction line with
  | nil => simp [splitLines]
  | cons a line ih =>
      obtain ⟨ha, hline⟩ := List.ne_and_not_mem_of_not_mem_cons h
      rw [List.cons_append, splitLines, ih hline]
      simp [ha.symm]

/-- The lines that a stream was written in. -/
theorem splitLines_flatMap {d : α} {lines : List (List α)} (h : ∀ line ∈ lines, d ∉ line)
    (rest : List α) :
    splitLines d (lines.flatMap (· ++ [d]) ++ rest) =
      (lines.map (· ++ [d]) ++ (splitLines d rest).1, (splitLines d rest).2) := by
  induction lines with
  | nil => rfl
  | cons line lines ih =>
      obtain ⟨hline, hlines⟩ := List.forall_mem_cons.mp h
      have hsplit : (line :: lines).flatMap (· ++ [d]) ++ rest =
          line ++ d :: (lines.flatMap (· ++ [d]) ++ rest) := by simp
      rw [hsplit, splitLines_append hline, ih hlines]
      rfl

/-- **A loop over the lines** of a stream sees the lines of its elements. -/
theorem Source.loop_eq (d : α) (step : σ → List α → Except ρ σ) (finish : σ → List α → ρ)
    (src : Source α) (s : σ) :
    src.loop d step finish s =
      match (splitLines d src.elements).1.foldlM step s with
      | .error r => r
      | .ok s' => finish s' (splitLines d src.elements).2 := by
  induction src, s using Source.loop.induct d step with
  | case1 src s line h =>
      obtain ⟨hsplit, rfl⟩ := Source.readLine_none h
      rw [Source.loop, h, splitLines_eq, hsplit]
      rfl
  | case2 src s line src' h r hstep =>
      rw [Source.loop, h, splitLines_eq, Source.readLine_some h]
      simp only [hstep, List.foldlM_cons, bind, Except.bind]
  | case3 src s line src' h s' hstep ih =>
      rw [Source.loop, h, splitLines_eq, Source.readLine_some h]
      simp only [hstep, List.foldlM_cons, bind, Except.bind]
      exact ih

end LineReader
