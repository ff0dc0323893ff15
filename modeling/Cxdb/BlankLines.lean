import Mathlib.Data.List.DropRight
import Mathlib.Data.List.Basic

/-!
# Blocks Between Blank Lines

A text arrives in parts. What has arrived and is not used up yet is kept in a buffer; its line
ends are made line feeds, and it is cut behind every second of two line feeds in a row. The
elements of the text are of any type, with two predicates that say which of them are carriage
returns and line feeds, so that a text can carry marks.

## Main results

* `feedAll_eq`: as long as carriage returns stand only before line feeds, the blocks and the rest
  do not depend on the parts.
* `Renders.cut`, `Renders.lines`, `Renders.trimEnd`: what happens to a text also happens to what
  its elements stand for.
-/

namespace BlankLines

variable {α β : Type} (isCr isLf : α → Bool)

/-- `replace("\r\n", "\n")`. -/
def joinCrLf : List α → List α
  | x :: y :: rest =>
      if isCr x && isLf y then y :: joinCrLf rest else x :: joinCrLf (y :: rest)
  | l => l

/-- The blocks that are complete, what is left, and whether that ends with a line feed. -/
structure Cut (α : Type) where
  blocks : List (List α)
  rest : List α
  lf : Bool

/-- The next element. -/
def Cut.push (s : Cut α) (x : α) : Cut α :=
  if isLf x then
    if s.lf then ⟨s.blocks ++ [s.rest ++ [x]], [], false⟩ else ⟨s.blocks, s.rest ++ [x], true⟩
  else ⟨s.blocks, s.rest ++ [x], false⟩

/-- A text, cut behind its blank lines. -/
def cut (l : List α) : Cut α := l.foldl (Cut.push isLf) ⟨[], [], false⟩

/-- The blocks so far and the buffer, with another part of the text. -/
def feed (s : List (List α) × List α) (part : List α) : List (List α) × List α :=
  let c := cut isLf (joinCrLf isCr isLf (s.2 ++ part))
  (s.1 ++ c.blocks, c.rest)

/-- A text in parts. -/
def feedAll (parts : List (List α)) : List (List α) × List α :=
  parts.foldl (feed isCr isLf) ([], [])

/-- A carriage return stands before a line feed, or at the end. -/
def CrLf : List α → Prop
  | x :: y :: rest => (isCr x = true → isLf y = true) ∧ CrLf (y :: rest)
  | _ => True

instance : DecidablePred (CrLf isCr isLf) := decideCrLf
where
  /-- The check of the first two elements, and of the others. -/
  decideCrLf : (l : List α) → Decidable (CrLf isCr isLf l)
    | [] | [_] => isTrue trivial
    | x :: y :: rest =>
        have := decideCrLf (y :: rest)
        inferInstanceAs (Decidable ((isCr x = true → isLf y = true) ∧ _))

/-- The carriage return at the end of a text, if there is one. -/
def lastCr (l : List α) : List α := l.getLast?.toList.filter isCr

/-- `trim_end_matches('\n')`. -/
def trimEnd (l : List α) : List α := l.rdropWhile isLf

/-- A line without the carriage return of its end. -/
def stripCr (l : List α) : List α := if (lastCr isCr l).isEmpty then l else l.dropLast

/-- The lines of a text, behind what there is of the first one. -/
def linesFrom (line : List α) : List α → List (List α)
  | [] => if line.isEmpty then [] else [line]
  | x :: rest =>
      if isLf x then stripCr isCr line :: linesFrom [] rest else linesFrom (line ++ [x]) rest

/-- `str::lines`. -/
def lines (l : List α) : List (List α) := linesFrom isCr isLf [] l

theorem feedAll_concat (parts : List (List α)) (part : List α) :
    feedAll isCr isLf (parts ++ [part]) = feed isCr isLf (feedAll isCr isLf parts) part := by
  rw [feedAll, List.foldl_append]
  rfl

/-! ### Cutting -/

theorem cut_append (l l' : List α) : cut isLf (l ++ l') = l'.foldl (Cut.push isLf) (cut isLf l) :=
  List.foldl_append ..

/-- Blocks that are complete stay as they are. -/
theorem foldl_push (blocks : List (List α)) (rest : List α) (lf : Bool) (l : List α) :
    l.foldl (Cut.push isLf) ⟨blocks, rest, lf⟩ =
      ⟨blocks ++ (l.foldl (Cut.push isLf) ⟨[], rest, lf⟩).blocks,
        (l.foldl (Cut.push isLf) ⟨[], rest, lf⟩).rest,
        (l.foldl (Cut.push isLf) ⟨[], rest, lf⟩).lf⟩ := by
  induction l using List.reverseRecOn with
  | nil => simp
  | append_singleton l x ih =>
      simp only [List.foldl_append, List.foldl_cons, List.foldl_nil, ih]
      simp only [Cut.push]
      split_ifs <;> simp

/-- What is left is not cut. -/
theorem cut_rest (l : List α) :
    cut isLf (cut isLf l).rest = ⟨[], (cut isLf l).rest, (cut isLf l).lf⟩ := by
  induction l using List.reverseRecOn with
  | nil => rfl
  | append_singleton l x ih =>
      rw [cut_append, List.foldl_cons, List.foldl_nil]
      by_cases hx : isLf x = true
      · by_cases hlf : (cut isLf l).lf = true
        · simp only [Cut.push, hx, hlf, if_true]
          rfl
        · simp [Cut.push, hx, hlf, cut_append, ih]
      · simp [Cut.push, hx, cut_append, ih]

/-- A text that goes on is what is left of it that goes on. -/
theorem cut_append_eq (l l' : List α) :
    (cut isLf (l ++ l')).blocks =
        (cut isLf l).blocks ++ (cut isLf ((cut isLf l).rest ++ l')).blocks ∧
      (cut isLf (l ++ l')).rest = (cut isLf ((cut isLf l).rest ++ l')).rest := by
  rw [cut_append, cut_append, cut_rest]
  obtain ⟨blocks, rest, lf⟩ := cut isLf l
  rw [foldl_push]
  exact ⟨rfl, rfl⟩

/-- What is left has no element that the text has not. -/
theorem mem_of_mem_rest {l : List α} {x : α} (h : x ∈ (cut isLf l).rest) : x ∈ l := by
  induction l using List.reverseRecOn with
  | nil => exact absurd h List.not_mem_nil
  | append_singleton l y ih =>
      rw [cut_append, List.foldl_cons, List.foldl_nil, Cut.push] at h
      split_ifs at h
      · exact absurd h List.not_mem_nil
      all_goals
        rcases List.mem_append.mp h with h | h
        · exact List.mem_append_left _ (ih h)
        · exact List.mem_append_right _ h

/-! ### Line ends -/

section LineEnds

variable {isCr isLf} {l l' : List α} {x : α}

theorem CrLf.of_cons (h : CrLf isCr isLf (x :: l)) : CrLf isCr isLf l := by
  cases l with
  | nil => trivial
  | cons y l => exact h.2

theorem CrLf.of_append_left (h : CrLf isCr isLf (l ++ l')) : CrLf isCr isLf l := by
  induction l with
  | nil => trivial
  | cons x l ih =>
      cases l with
      | nil => trivial
      | cons y l => exact ⟨h.1, ih h.2⟩

theorem CrLf.of_append_right (h : CrLf isCr isLf (l ++ l')) : CrLf isCr isLf l' := by
  induction l with
  | nil => exact h
  | cons x l ih => exact ih h.of_cons

/-- Elements that are no carriage returns can come before any text. -/
theorem CrLf.append (hl : ∀ x ∈ l, isCr x = false) (h : CrLf isCr isLf l') :
    CrLf isCr isLf (l ++ l') := by
  induction l with
  | nil => exact h
  | cons x l ih =>
      have htail := ih fun y hy => hl y (List.mem_cons_of_mem _ hy)
      cases hcons : l ++ l' with
      | nil => rw [List.cons_append, hcons]; trivial
      | cons y rest =>
          rw [List.cons_append, hcons]
          rw [hcons] at htail
          exact ⟨fun hx => absurd hx (by rw [hl x List.mem_cons_self]; simp), htail⟩

theorem lastCr_append (hl' : l' ≠ []) : lastCr isCr (l ++ l') = lastCr isCr l' := by
  rw [lastCr, lastCr, List.getLast?_append_of_ne_nil _ hl']

theorem lastCr_of_forall (h : ∀ x ∈ l, isCr x = false) : lastCr isCr l = [] := by
  rw [lastCr, List.filter_eq_nil_iff]
  intro x hx
  rw [h x (List.mem_of_getLast? (Option.mem_toList.mp hx))]
  simp

/-- **Line ends are made line feeds.** The carriage returns go, but for one at the end. -/
theorem joinCrLf_eq (hdisjoint : ∀ x, isLf x = true → isCr x = false)
    (h : CrLf isCr isLf l) :
    joinCrLf isCr isLf l = l.filter (!isCr ·) ++ lastCr isCr l := by
  fun_induction joinCrLf isCr isLf l with
  | case1 x y rest hxy ih =>
      obtain ⟨hx, hy⟩ := Bool.and_eq_true_iff.mp hxy
      have hlast : lastCr isCr (x :: y :: rest) = lastCr isCr rest := by
        cases rest with
        | nil => simp [lastCr, hdisjoint y hy]
        | cons z rest => exact lastCr_append (l := [x, y]) (List.cons_ne_nil _ _)
      rw [ih h.of_cons.of_cons, hlast]
      simp [hx, hdisjoint y hy]
  | case2 x y rest hxy ih =>
      have hx : isCr x = false := by
        by_contra hx
        rw [Bool.not_eq_false] at hx
        exact hxy (Bool.and_eq_true_iff.mpr ⟨hx, h.1 hx⟩)
      have hlast : lastCr isCr (x :: y :: rest) = lastCr isCr (y :: rest) :=
        lastCr_append (l := [x]) (List.cons_ne_nil _ _)
      have hfilter : (x :: y :: rest).filter (!isCr ·) = x :: (y :: rest).filter (!isCr ·) :=
        List.filter_cons_of_pos (by simp [hx])
      rw [ih h.of_cons, hlast, hfilter, List.cons_append]
  | case3 l hl =>
      match l, hl with
      | [], _ => rfl
      | [x], _ => by_cases hx : isCr x = true <;> simp [lastCr, hx]
      | x :: y :: rest, hl => exact absurd rfl (hl x y rest)

/-- **One more part.** Before it the buffer is what is left of the text. -/
theorem cut_joinCrLf_append (hdisjoint : ∀ x, isLf x = true → isCr x = false) {part : List α}
    (h : CrLf isCr isLf (l ++ part)) :
    (cut isLf (joinCrLf isCr isLf (l ++ part))).blocks =
        (cut isLf (joinCrLf isCr isLf l)).blocks ++
          (cut isLf (joinCrLf isCr isLf
            ((cut isLf (joinCrLf isCr isLf l)).rest ++ part))).blocks ∧
      (cut isLf (joinCrLf isCr isLf (l ++ part))).rest =
        (cut isLf (joinCrLf isCr isLf
          ((cut isLf (joinCrLf isCr isLf l)).rest ++ part))).rest := by
  obtain ⟨f, hf⟩ : ∃ f, f = l.filter (!isCr ·) := ⟨_, rfl⟩
  obtain ⟨r, hr⟩ : ∃ r, r = (cut isLf f).rest := ⟨_, rfl⟩
  have hnoCr : ∀ x ∈ r, isCr x = false := by
    intro x hx
    rw [hr] at hx
    have hmem := mem_of_mem_rest isLf hx
    rw [hf] at hmem
    simpa using (List.mem_filter.mp hmem).2
  -- a carriage return at the end is no line feed, and stays with what is left
  have hlast : ∀ x ∈ lastCr isCr l, isLf x = false := by
    intro x hx
    have hcr := (List.mem_filter.mp hx).2
    by_contra hlf
    rw [hdisjoint x (by simpa using hlf)] at hcr
    cases hcr
  have hcut : (cut isLf (f ++ lastCr isCr l)).blocks = (cut isLf f).blocks ∧
      (cut isLf (f ++ lastCr isCr l)).rest = r ++ lastCr isCr l := by
    rw [hr]
    cases hc : lastCr isCr l with
    | nil => simp
    | cons x rest =>
        have hrest : rest = [] := by
          have hlen : (lastCr isCr l).length ≤ 1 := by
            rw [lastCr]
            refine (List.length_filter_le ..).trans ?_
            cases l.getLast? <;> simp
          rw [hc] at hlen
          simpa using hlen
        have hx := hlast x (hc ▸ List.mem_cons_self)
        rw [hrest, cut_append, List.foldl_cons, List.foldl_nil, Cut.push, if_neg (by simp [hx])]
        exact ⟨rfl, rfl⟩
  rw [joinCrLf_eq hdisjoint h, joinCrLf_eq hdisjoint h.of_append_left, List.filter_append, ← hf,
    hcut.1, hcut.2]
  have hclean : CrLf isCr isLf (r ++ lastCr isCr l ++ part) := by
    rw [List.append_assoc]
    refine .append hnoCr ?_
    by_cases hc : lastCr isCr l = []
    · rw [hc]
      exact h.of_append_right
    · obtain ⟨l', x, rfl⟩ := List.eq_nil_or_concat' l |>.resolve_left (by
        rintro rfl
        exact hc rfl)
      rw [List.append_assoc] at h
      have hx : lastCr isCr (l' ++ [x]) = [x] := by
        rw [lastCr_append (List.cons_ne_nil _ _)] at hc ⊢
        by_cases hx : isCr x = true
        · simp [lastCr, hx]
        · simp [lastCr, hx] at hc
      rw [hx]
      exact h.of_append_right
  have hfilter : (r ++ lastCr isCr l ++ part).filter (!isCr ·) = r ++ part.filter (!isCr ·) := by
    rw [List.filter_append, List.filter_append, List.filter_eq_self.mpr fun x hx => by
      simp [hnoCr x hx]]
    have hnone : (lastCr isCr l).filter (!isCr ·) = [] := by
      rw [List.filter_eq_nil_iff]
      intro x hx
      simp [(List.mem_filter.mp hx).2]
    rw [hnone, List.append_nil]
  have hend : lastCr isCr (r ++ lastCr isCr l ++ part) = lastCr isCr (l ++ part) := by
    by_cases hpart : part = []
    · subst hpart
      rw [List.append_nil, List.append_nil]
      by_cases hc : lastCr isCr l = []
      · rw [hc, List.append_nil, lastCr_of_forall hnoCr]
      · rw [lastCr_append hc, lastCr, lastCr]
        cases l.getLast? with
        | none => rfl
        | some x => by_cases hx : isCr x = true <;> simp [hx]
    · rw [lastCr_append hpart, lastCr_append hpart]
  rw [joinCrLf_eq hdisjoint hclean, hfilter, hend, List.append_assoc, List.append_assoc, hr]
  exact cut_append_eq isLf f _

/-- **The parts do not matter.** -/
theorem feedAll_eq (hdisjoint : ∀ x, isLf x = true → isCr x = false) (parts : List (List α))
    (h : CrLf isCr isLf parts.flatten) :
    feedAll isCr isLf parts =
      ((cut isLf (joinCrLf isCr isLf parts.flatten)).blocks,
        (cut isLf (joinCrLf isCr isLf parts.flatten)).rest) := by
  induction parts using List.reverseRecOn with
  | nil => rfl
  | append_singleton parts part ih =>
      rw [List.flatten_append, List.flatten_singleton] at h ⊢
      obtain ⟨hblocks, hrest⟩ := cut_joinCrLf_append hdisjoint h
      rw [feedAll_concat, ih h.of_append_left, feed, hblocks, hrest]

end LineEnds

/-! ### What the elements stand for -/

/-- Line feeds and carriage returns stand for one of their kind, and anything else for something
without them. -/
structure Renders (isCr isLf : α → Bool) (isCr' isLf' : β → Bool) (σ : α → List β) : Prop where
  ne_nil : ∀ x, σ x ≠ []
  lf : ∀ x, isLf x = true → ∃ y, σ x = [y] ∧ isLf' y = true
  not_lf : ∀ x, isLf x = false → ∀ y ∈ σ x, isLf' y = false
  cr : ∀ x, isCr x = true → ∃ y, σ x = [y] ∧ isCr' y = true
  not_cr : ∀ x, isCr x = false → ∀ y ∈ σ x, isCr' y = false

/-- Elements that stand for one element each. -/
theorem Renders.of_map {isCr isLf : α → Bool} {isCr' isLf' : β → Bool} (f : α → β)
    (hcr : ∀ x, isCr' (f x) = isCr x) (hlf : ∀ x, isLf' (f x) = isLf x) :
    Renders isCr isLf isCr' isLf' fun x => [f x] where
  ne_nil _ := List.cons_ne_nil _ _
  lf x hx := ⟨f x, rfl, (hlf x).trans hx⟩
  not_lf x hx y hy := by rw [List.mem_singleton.mp hy, hlf, hx]
  cr x hx := ⟨f x, rfl, (hcr x).trans hx⟩
  not_cr x hx y hy := by rw [List.mem_singleton.mp hy, hcr, hx]

theorem CrLf.of_map {isCr isLf : α → Bool} {isCr' isLf' : β → Bool} {f : α → β}
    (hcr : ∀ x, isCr' (f x) = isCr x) (hlf : ∀ x, isLf' (f x) = isLf x) {l : List α}
    (h : CrLf isCr' isLf' (l.map f)) : CrLf isCr isLf l := by
  induction l with
  | nil => trivial
  | cons x l ih =>
      cases l with
      | nil => trivial
      | cons y l => exact ⟨fun hx => (hlf y) ▸ h.1 ((hcr x).trans hx), ih h.2⟩

namespace Renders

variable {isCr isLf} {isCr' isLf' : β → Bool} {σ : α → List β}

theorem flatMap_eq_nil (h : Renders isCr isLf isCr' isLf' σ) {l : List α} :
    l.flatMap σ = [] ↔ l = [] := by
  cases l with
  | nil => simp
  | cons x l => simp [h.ne_nil x]

/-- Pushing what an element stands for. -/
theorem foldl_push (h : Renders isCr isLf isCr' isLf' σ) (s : Cut β) (x : α) :
    (σ x).foldl (Cut.push isLf') s =
      if isLf x then
        if s.lf then ⟨s.blocks ++ [s.rest ++ σ x], [], false⟩ else ⟨s.blocks, s.rest ++ σ x, true⟩
      else ⟨s.blocks, s.rest ++ σ x, false⟩ := by
  by_cases hx : isLf x = true
  · obtain ⟨y, hy, hlf⟩ := h.lf x hx
    simp [hy, Cut.push, hlf, hx]
  · rw [Bool.not_eq_true] at hx
    have hall : ∀ (l : List β) (s : Cut β), l ≠ [] → (∀ y ∈ l, isLf' y = false) →
        l.foldl (Cut.push isLf') s = ⟨s.blocks, s.rest ++ l, false⟩ := by
      intro l
      induction l with
      | nil => exact fun _ hne => absurd rfl hne
      | cons y l ih =>
          intro s _ hl
          have hpush : s.push isLf' y = ⟨s.blocks, s.rest ++ [y], false⟩ := by
            simp [Cut.push, hl y List.mem_cons_self]
          rw [List.foldl_cons, hpush]
          by_cases hne : l = []
          · subst hne
            rfl
          · rw [ih _ hne fun z hz => hl z (List.mem_cons_of_mem _ hz)]
            simp
    rw [hall (σ x) s (h.ne_nil x) (h.not_lf x hx), hx]
    rfl

/-- **Cutting.** -/
theorem cut (h : Renders isCr isLf isCr' isLf' σ) (l : List α) :
    BlankLines.cut isLf' (l.flatMap σ) =
      ⟨(BlankLines.cut isLf l).blocks.map (·.flatMap σ), (BlankLines.cut isLf l).rest.flatMap σ,
        (BlankLines.cut isLf l).lf⟩ := by
  induction l using List.reverseRecOn with
  | nil => rfl
  | append_singleton l x ih =>
      rw [List.flatMap_append, cut_append, cut_append, ih, List.flatMap_singleton, h.foldl_push,
        List.foldl_cons, List.foldl_nil, Cut.push]
      dsimp only
      split_ifs <;> simp

theorem lastCr (h : Renders isCr isLf isCr' isLf' σ) (l : List α) :
    BlankLines.lastCr isCr' (l.flatMap σ) = (BlankLines.lastCr isCr l).flatMap σ := by
  induction l using List.reverseRecOn with
  | nil => rfl
  | append_singleton l x _ =>
      rw [List.flatMap_append, List.flatMap_singleton, lastCr_append (h.ne_nil x),
        lastCr_append (List.cons_ne_nil _ _)]
      by_cases hx : isCr x = true
      · obtain ⟨y, hy, hcr⟩ := h.cr x hx
        simp [BlankLines.lastCr, hy, hcr, hx]
      · rw [Bool.not_eq_true] at hx
        rw [lastCr_of_forall (h.not_cr x hx)]
        simp [BlankLines.lastCr, hx]

theorem filter (h : Renders isCr isLf isCr' isLf' σ) (l : List α) :
    (l.flatMap σ).filter (!isCr' ·) = (l.filter (!isCr ·)).flatMap σ := by
  induction l with
  | nil => rfl
  | cons x l ih =>
      rw [List.flatMap_cons, List.filter_append, ih]
      by_cases hx : isCr x = true
      · obtain ⟨y, hy, hcr⟩ := h.cr x hx
        simp [hy, hcr, hx]
      · rw [Bool.not_eq_true] at hx
        rw [List.filter_eq_self.mpr fun y hy => by simp [h.not_cr x hx y hy],
          List.filter_cons_of_pos (by simp [hx]), List.flatMap_cons]

theorem crLf (h : Renders isCr isLf isCr' isLf' σ) {l : List α} (hl : CrLf isCr isLf l) :
    CrLf isCr' isLf' (l.flatMap σ) := by
  induction l with
  | nil => trivial
  | cons x l ih =>
      rw [List.flatMap_cons]
      by_cases hx : isCr x = true
      · obtain ⟨y, hy, -⟩ := h.cr x hx
        cases l with
        | nil =>
            rw [hy]
            trivial
        | cons z l =>
            obtain ⟨w, hw, hlf⟩ := h.lf z (hl.1 hx)
            have htail := ih hl.2
            rw [List.flatMap_cons, hw] at htail
            rw [hy, List.flatMap_cons, hw]
            exact ⟨fun _ => hlf, htail⟩
      · rw [Bool.not_eq_true] at hx
        exact .append (h.not_cr x hx) (ih hl.of_cons)

/-- **Line ends.** -/
theorem joinCrLf (h : Renders isCr isLf isCr' isLf' σ)
    (hdisjoint : ∀ x, isLf x = true → isCr x = false)
    (hdisjoint' : ∀ y, isLf' y = true → isCr' y = false) {l : List α} (hl : CrLf isCr isLf l) :
    BlankLines.joinCrLf isCr' isLf' (l.flatMap σ) =
      (BlankLines.joinCrLf isCr isLf l).flatMap σ := by
  rw [joinCrLf_eq hdisjoint' (h.crLf hl), joinCrLf_eq hdisjoint hl, h.filter, h.lastCr,
    List.flatMap_append]

/-- **The line feeds at the end.** -/
theorem trimEnd (h : Renders isCr isLf isCr' isLf' σ) (l : List α) :
    BlankLines.trimEnd isLf' (l.flatMap σ) = (BlankLines.trimEnd isLf l).flatMap σ := by
  induction l using List.reverseRecOn with
  | nil => rfl
  | append_singleton l x ih =>
      rw [List.flatMap_append, List.flatMap_singleton]
      by_cases hx : isLf x = true
      · obtain ⟨y, hy, hlf⟩ := h.lf x hx
        rw [hy, BlankLines.trimEnd, List.rdropWhile_concat_pos _ _ _ hlf, BlankLines.trimEnd,
          List.rdropWhile_concat_pos _ _ _ hx]
        exact ih
      · rw [BlankLines.trimEnd, BlankLines.trimEnd, List.rdropWhile_concat_neg _ _ _ hx,
          List.flatMap_append, List.flatMap_singleton]
        obtain ⟨init, y, hy⟩ := (List.eq_nil_or_concat' (σ x)).resolve_left (h.ne_nil x)
        rw [Bool.not_eq_true] at hx
        have hlf := h.not_lf x hx y (hy ▸ List.mem_append_right _ List.mem_cons_self)
        rw [hy, ← List.append_assoc, List.rdropWhile_concat_neg _ _ _ (by simp [hlf])]

theorem stripCr (h : Renders isCr isLf isCr' isLf' σ) (l : List α) :
    BlankLines.stripCr isCr' (l.flatMap σ) = (BlankLines.stripCr isCr l).flatMap σ := by
  rw [BlankLines.stripCr, BlankLines.stripCr, h.lastCr]
  by_cases hcr : BlankLines.lastCr isCr l = []
  · rw [hcr]
    rfl
  · have hne : (BlankLines.lastCr isCr l).flatMap σ ≠ [] := mt h.flatMap_eq_nil.mp hcr
    rw [if_neg (by simpa using hne), if_neg (by simpa using hcr)]
    obtain ⟨l', x, rfl⟩ := List.eq_nil_or_concat' l |>.resolve_left (by
      rintro rfl
      exact hcr rfl)
    have hx : isCr x = true := by
      rw [lastCr_append (List.cons_ne_nil _ _)] at hcr
      by_contra hx
      exact hcr (by simp [BlankLines.lastCr, hx])
    obtain ⟨y, hy, -⟩ := h.cr x hx
    rw [List.flatMap_append, List.flatMap_singleton, hy, List.dropLast_concat,
      List.dropLast_concat]

/-- **Lines.** -/
theorem lines (h : Renders isCr isLf isCr' isLf' σ) (l : List α) :
    BlankLines.lines isCr' isLf' (l.flatMap σ) =
      (BlankLines.lines isCr isLf l).map (·.flatMap σ) := by
  have hskip : ∀ (l rest line : List β), (∀ y ∈ l, isLf' y = false) →
      linesFrom isCr' isLf' line (l ++ rest) = linesFrom isCr' isLf' (line ++ l) rest := by
    intro l
    induction l with
    | nil => simp
    | cons y l ih =>
        intro rest line hl
        rw [List.cons_append, linesFrom, if_neg (by simp [hl y List.mem_cons_self]),
          ih rest _ fun z hz => hl z (List.mem_cons_of_mem _ hz), List.append_assoc]
        rfl
  have hfrom : ∀ (l line : List α), linesFrom isCr' isLf' (line.flatMap σ) (l.flatMap σ) =
      (linesFrom isCr isLf line l).map (·.flatMap σ) := by
    intro l
    induction l with
    | nil =>
        intro line
        rw [List.flatMap_nil, linesFrom, linesFrom]
        by_cases hline : line = []
        · subst hline
          rfl
        · rw [if_neg (by simpa using mt h.flatMap_eq_nil.mp hline), if_neg (by simpa using hline)]
          rfl
    | cons x l ih =>
        intro line
        rw [List.flatMap_cons, linesFrom]
        by_cases hx : isLf x = true
        · obtain ⟨y, hy, hlf⟩ := h.lf x hx
          rw [if_pos hx, hy, List.singleton_append, linesFrom, if_pos hlf, h.stripCr,
            List.map_cons, ← ih []]
          rfl
        · rw [if_neg hx, hskip _ _ _ (h.not_lf x (by simpa using hx)), ← ih]
          simp
  exact hfrom l []

end Renders

end BlankLines
