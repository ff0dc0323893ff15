import Mathlib.Algebra.BigOperators.Group.Finset.Basic
import Mathlib.Data.Finset.Card
import Mathlib.Data.Finset.Union

/-!
# Walks with One Set of Marks

A walk goes over references to places and items. A place is opened, and what it refers to is
gone over at once; an item is counted and no more. One set of marks keeps both from being
counted twice. A place that has been met as an item before is marked already, so that it is
passed over and never opened: what it refers to is then missed, unless something else leads
there.

Whether that happens depends on the order in which the walk meets things. The order is that of
the references alone, as they would be gone over without any marks: a place is safe if it is
nowhere mentioned as an item before, and neither was any of the places that lead to it.

## Main results

* `openPlace_isSome`: the walk ends.
* `Walked.total`: it comes to the weight of what it marks.
* `exists_walked`: what a walk marks and opens.
* `walk_eq_sum`: it comes to the weight of everything that is mentioned, if whatever has a weight
  is referred to by a safe place.
-/

namespace MarkedWalk

variable {α M : Type*}

/-- References, to a place or to an item. -/
abbrev Refs (α : Type*) := List (α × Bool)

section Walk

variable [DecidableEq α] [AddCommMonoid M] (refs : α → Refs α) (weight : α → M)

/-- Go over references, with what opening a place comes to. -/
def visitAll (openAt : α → Finset α → Option (M × Finset α)) :
    Refs α → M → Finset α → Option (M × Finset α)
  | [], total, seen => some (total, seen)
  | (a, true) :: l, total, seen =>
      (openAt a seen).bind fun r => visitAll openAt l (total + r.1) r.2
  | (a, false) :: l, total, seen =>
      if a ∈ seen then visitAll openAt l total seen
      else visitAll openAt l (total + weight a) (insert a seen)

/-- Open a place, unless it is marked. There is nothing when the fuel is used up. -/
def openPlace : ℕ → α → Finset α → Option (M × Finset α)
  | 0, _, _ => none
  | fuel + 1, a, seen =>
      if a ∈ seen then some (0, seen)
      else visitAll weight (openPlace fuel) (refs a) (weight a) (insert a seen)

/-- Go over references. -/
def walk (fuel : ℕ) (l : Refs α) : Option (M × Finset α) :=
  visitAll weight (openPlace refs weight fuel) l 0 ∅

end Walk

/-! ### Mentions -/

/-- Something is mentioned, as a place or as an item, by references or by a place below them. -/
inductive Mentions (refs : α → Refs α) : Refs α → α → Bool → Prop
  | here {l : Refs α} {a : α} {place : Bool} : (a, place) ∈ l → Mentions refs l a place
  | under {l : Refs α} {b a : α} {place : Bool} : (b, true) ∈ l → Mentions refs (refs b) a place →
      Mentions refs l a place

/-- A place is safe: it is not mentioned as an item by what comes before it, and neither was any
place on the way to it. What comes before are the references that are gone over before those
places. -/
inductive Safe (refs : α → Refs α) (l : Refs α) : Refs α → α → Prop
  | root {before after : Refs α} {a : α} : l = before ++ (a, true) :: after →
      ¬ Mentions refs before a false → Safe refs l before a
  | under {earlier before after : Refs α} {a b : α} : Safe refs l earlier a →
      refs a = before ++ (b, true) :: after → ¬ Mentions refs (earlier ++ before) b false →
      Safe refs l (earlier ++ before) b

/-- Something is one of the references, or a safe place refers to it. -/
def SafelyMentioned (refs : α → Refs α) (l : Refs α) (a : α) : Prop :=
  (∃ place, (a, place) ∈ l) ∨ ∃ earlier b, Safe refs l earlier b ∧ ∃ place, (a, place) ∈ refs b

variable {refs : α → Refs α} {l l' : Refs α} {a : α} {place : Bool}

theorem Mentions.mono (h : Mentions refs l a place) (hsub : ∀ r ∈ l, r ∈ l') :
    Mentions refs l' a place := by
  cases h with
  | here hmem => exact .here (hsub _ hmem)
  | under hmem hunder => exact .under (hsub _ hmem) hunder

/-- What a mentioned place refers to is mentioned. -/
theorem Mentions.snoc {b : α} (h : Mentions refs l b true) (ha : (a, place) ∈ refs b) :
    Mentions refs l a place := by
  generalize hb : true = directory at h
  induction h with
  | here hmem => exact .under (hb ▸ hmem) (.here ha)
  | under hmem _ ih => exact .under hmem (ih ha hb)

/-- What holds of the references, and of what a place refers to for which it holds, holds of
everything that is mentioned. -/
theorem Mentions.holds {p : α → Bool → Prop} (h : Mentions refs l a place)
    (hl : ∀ r ∈ l, p r.1 r.2) (hstep : ∀ b, p b true → ∀ r ∈ refs b, p r.1 r.2) : p a place := by
  induction h with
  | here hmem => exact hl _ hmem
  | under hmem _ ih => exact ih (hstep _ (hl _ hmem))

/-- What is mentioned as an item. -/
def items (refs : α → Refs α) (l : Refs α) : Set α := {a | Mentions refs l a false}

@[simp] theorem items_nil (refs : α → Refs α) : items refs [] = ∅ := by
  refine Set.eq_empty_iff_forall_notMem.mpr fun a h => ?_
  cases h with
  | here hmem | under hmem _ => exact absurd hmem List.not_mem_nil

theorem items_append (refs : α → Refs α) (l l' : Refs α) :
    items refs (l ++ l') = items refs l ∪ items refs l' := by
  refine Set.Subset.antisymm (fun a h => ?_) (Set.union_subset ?_ ?_)
  · cases h with
    | here hmem => exact (List.mem_append.mp hmem).imp .here .here
    | under hmem h => exact (List.mem_append.mp hmem).imp (.under · h) (.under · h)
  · exact fun a h => h.mono fun r hr => List.mem_append_left _ hr
  · exact fun a h => h.mono fun r hr => List.mem_append_right _ hr

theorem items_cons (refs : α → Refs α) (r : α × Bool) (l : Refs α) :
    items refs (r :: l) = items refs [r] ∪ items refs l :=
  items_append refs [r] l

theorem mem_items_self (refs : α → Refs α) (a : α) : a ∈ items refs [(a, false)] :=
  .here List.mem_cons_self

theorem items_refs_subset (refs : α → Refs α) (a : α) :
    items refs (refs a) ⊆ items refs [(a, true)] :=
  fun _ h => .under List.mem_cons_self h

/-! ### What a walk marks -/

/-- Every mark is that of a place that was opened, or of an item among `found`. What was found
when a place was opened is kept with it. -/
structure Marks (opened : Set (α × Set α)) (found : Set α) (seen : Finset α) : Prop where
  mark : ∀ a ∈ seen, (∃ g, (a, g) ∈ opened) ∨ a ∈ found
  before : ∀ a g, (a, g) ∈ opened → g ⊆ found

/-- References have been gone over, with the items `found` before them: all of them are marked,
and the places among them are opened if no item was found under their name. -/
structure Covers (refs : α → Refs α) (opened : Set (α × Set α)) (found : Set α) (l : Refs α)
    (seen : Finset α) : Prop where
  marked : ∀ r ∈ l, r.1 ∈ seen
  opened : ∀ before after a, l = before ++ (a, true) :: after →
    (∃ g, (a, g) ∈ opened ∧ g ⊆ found ∪ items refs before) ∨ a ∈ found ∪ items refs before

/-- What going over references does to the marks. -/
structure Walked (refs : α → Refs α) (l : Refs α) (found : Set α) (opened : Set (α × Set α))
    (seen : Finset α) (opened' : Set (α × Set α)) (seen' : Finset α) : Prop where
  opened_subset : opened ⊆ opened'
  seen_subset : seen ⊆ seen'
  marks : Marks opened' (found ∪ items refs l) seen'
  covers : Covers refs opened' found l seen'
  /-- What is opened on the way is gone over. -/
  expanded : ∀ a g, (a, g) ∈ opened' → (a, g) ∉ opened → Covers refs opened' g (refs a) seen'
  mentioned : ∀ a ∈ seen', a ∈ seen ∨ ∃ place, Mentions refs l a place

variable {opened opened' opened₁ : Set (α × Set α)} {found found' : Set α}
  {seen seen' seen₁ : Finset α}

theorem Covers.mono (h : Covers refs opened found l seen) (ho : opened ⊆ opened')
    (hs : seen ⊆ seen') : Covers refs opened' found l seen' where
  marked r hr := hs (h.marked r hr)
  opened before after a heq :=
    (h.opened before after a heq).imp_left fun ⟨g, hg, hsub⟩ => ⟨g, ho hg, hsub⟩

theorem Marks.mono (h : Marks opened found seen) (hf : found ⊆ found') :
    Marks opened found' seen where
  mark a ha := (h.mark a ha).imp_right (@hf a)
  before a g hg := (h.before a g hg).trans hf

theorem Walked.nil (h : Marks opened found seen) :
    Walked refs [] found opened seen opened seen where
  opened_subset := subset_rfl
  seen_subset := subset_rfl
  marks := h.mono Set.subset_union_left
  covers := ⟨by simp, by simp⟩
  expanded a g hmem hnew := absurd hmem hnew
  mentioned a ha := .inl ha

/-- An item or a place that is marked is passed over. -/
theorem Walked.pass (h : Marks opened found seen) (ha : a ∈ seen) :
    Walked refs [(a, place)] found opened seen opened seen where
  opened_subset := subset_rfl
  seen_subset := subset_rfl
  marks := h.mono Set.subset_union_left
  covers := by
    refine ⟨by simpa using ha, fun before after b heq => ?_⟩
    obtain ⟨rfl, hb⟩ : before = [] ∧ b = a := by
      rcases before with _ | ⟨c, before⟩
      · simp_all
      · simp at heq
    rw [items_nil, Set.union_empty, hb]
    exact (h.mark a ha).imp_left fun ⟨g, hg⟩ => ⟨g, hg, h.before a g hg⟩
  expanded b g hmem hnew := absurd hmem hnew
  mentioned b hb := .inl hb

section

variable [DecidableEq α]

/-- An item that is met first is marked. -/
theorem Walked.count (h : Marks opened found seen) (a : α) :
    Walked refs [(a, false)] found opened seen opened (insert a seen) where
  opened_subset := subset_rfl
  seen_subset := Finset.subset_insert a seen
  marks := by
    refine ⟨fun b hb => ?_, fun b g hg => (h.before b g hg).trans Set.subset_union_left⟩
    rcases Finset.mem_insert.mp hb with rfl | hb
    · exact .inr (.inr (mem_items_self refs _))
    · exact (h.mark b hb).imp_right .inl
  covers := by
    refine ⟨by simp, fun before after b heq => ?_⟩
    rcases before with _ | ⟨c, before⟩ <;> simp at heq
  expanded b g hmem hnew := absurd hmem hnew
  mentioned b hb := by
    rcases Finset.mem_insert.mp hb with rfl | hb
    · exact .inr ⟨false, .here List.mem_cons_self⟩
    · exact .inl hb

/-- A place that is met first is opened. -/
theorem Walked.open (h : Marks opened found seen)
    (hw : Walked refs (refs a) found (insert (a, found) opened) (insert a seen) opened' seen') :
    Walked refs [(a, true)] found opened seen opened' seen' where
  opened_subset := (Set.subset_insert _ _).trans hw.opened_subset
  seen_subset := (Finset.subset_insert a seen).trans hw.seen_subset
  marks := hw.marks.mono (Set.union_subset_union_right _ (items_refs_subset refs a))
  covers := by
    refine ⟨by simpa using hw.seen_subset (Finset.mem_insert_self a seen),
      fun before after b heq => .inl ⟨found, ?_, Set.subset_union_left⟩⟩
    have hb : b = a := by
      rcases before with _ | ⟨c, before⟩
      · simp_all
      · simp at heq
    exact hw.opened_subset (hb ▸ Set.mem_insert _ _)
  expanded b g hmem hnew := by
    by_cases hb : (b, g) = (a, found)
    · obtain ⟨rfl, rfl⟩ := Prod.mk.inj hb
      exact hw.covers
    · exact hw.expanded b g hmem fun h' => h'.elim hb hnew
  mentioned b hb := by
    rcases hw.mentioned b hb with hb | ⟨place, hplace⟩
    · rcases Finset.mem_insert.mp hb with rfl | hb
      · exact .inr ⟨true, .here List.mem_cons_self⟩
      · exact .inl hb
    · exact .inr ⟨place, .under List.mem_cons_self hplace⟩

end

/-- The marks that a walk starts with. -/
theorem Marks.insert [DecidableEq α] (h : Marks opened found seen) (a : α) :
    Marks (insert (a, found) opened) found (insert a seen) where
  mark b hb := by
    rcases Finset.mem_insert.mp hb with rfl | hb
    · exact .inl ⟨found, Set.mem_insert _ _⟩
    · exact (h.mark b hb).imp_left fun ⟨g, hg⟩ => ⟨g, Set.mem_insert_of_mem _ hg⟩
  before b g hg := by
    rcases hg with hg | hg
    · exact (Prod.mk.inj hg).2.le
    · exact h.before b g hg

/-- One reference after another. -/
theorem Walked.cons {r : α × Bool} (h : Walked refs [r] found opened seen opened₁ seen₁)
    (ht : Walked refs l (found ∪ items refs [r]) opened₁ seen₁ opened' seen') :
    Walked refs (r :: l) found opened seen opened' seen' where
  opened_subset := h.opened_subset.trans ht.opened_subset
  seen_subset := h.seen_subset.trans ht.seen_subset
  marks := by
    rw [items_cons, ← Set.union_assoc]
    exact ht.marks
  covers := by
    constructor
    · intro r' hr'
      rcases List.mem_cons.mp hr' with rfl | hr'
      · exact ht.seen_subset (h.covers.marked _ List.mem_cons_self)
      · exact ht.covers.marked r' hr'
    · intro before after a heq
      rcases before with _ | ⟨c, before⟩
      · obtain ⟨rfl, -⟩ := List.cons.inj heq
        refine (h.covers.opened [] [] a rfl).imp_left fun ⟨g, hg, hsub⟩ => ?_
        exact ⟨g, ht.opened_subset hg, hsub⟩
      · obtain ⟨rfl, htail⟩ := List.cons.inj heq
        rw [items_cons, ← Set.union_assoc]
        exact ht.covers.opened before after a htail
  expanded a g hmem hnew := by
    by_cases hmid : (a, g) ∈ opened₁
    · exact (h.expanded a g hmid hnew).mono ht.opened_subset ht.seen_subset
    · exact ht.expanded a g hmem hmid
  mentioned a ha := by
    rcases ht.mentioned a ha with ha | ⟨place, hplace⟩
    · exact (h.mentioned a ha).imp_right fun ⟨place, hplace⟩ =>
        ⟨place, hplace.mono (by simp)⟩
    · exact .inr ⟨place, hplace.mono fun r hr => List.mem_cons_of_mem _ hr⟩

/-- A safe place is opened, and no more items have been found then than come before it. -/
theorem Walked.opens (h : Walked refs l ∅ ∅ ∅ opened seen) {earlier : Refs α}
    (hsafe : Safe refs l earlier a) : ∃ g, (a, g) ∈ opened ∧ g ⊆ items refs earlier := by
  induction hsafe with
  | root hl hnot =>
      have hopened := h.covers.opened _ _ _ hl
      rw [Set.empty_union] at hopened
      exact hopened.resolve_right hnot
  | @under earlier before after a b _ hrefs hnot ih =>
      obtain ⟨g, hg, hsub⟩ := ih
      have hitems : g ∪ items refs before ⊆ items refs (earlier ++ before) := by
        rw [items_append]
        exact Set.union_subset_union_left _ hsub
      obtain ⟨g', hg', hsub'⟩ := ((h.expanded a g hg (Set.notMem_empty _)).opened _ _ _
        hrefs).resolve_right fun hb => hnot (hitems hb)
      exact ⟨g', hg', hsub'.trans hitems⟩

/-- Whatever is safely mentioned is marked. -/
theorem Walked.marks_safe (h : Walked refs l ∅ ∅ ∅ opened seen) (ha : SafelyMentioned refs l a) :
    a ∈ seen := by
  rcases ha with ⟨place, hmem⟩ | ⟨earlier, b, hsafe, place, hmem⟩
  · exact h.covers.marked _ hmem
  · obtain ⟨g, hg, -⟩ := h.opens hsafe
    exact (h.expanded b g hg (Set.notMem_empty _)).marked _ hmem

/-! ### The walk -/

section Walk

variable [DecidableEq α] [AddCommMonoid M] {weight : α → M}
  {openAt : α → Finset α → Option (M × Finset α)} {total : M} {r : M × Finset α}

/-- Going over references marks what opening places does. -/
theorem exists_walked_visitAll
    (hopen : ∀ a seen r found opened, openAt a seen = some r → Marks opened found seen →
      ∃ opened', Walked refs [(a, true)] found opened seen opened' r.2)
    (hvisit : visitAll weight openAt l total seen = some r) (h : Marks opened found seen) :
    ∃ opened', Walked refs l found opened seen opened' r.2 := by
  induction l generalizing total seen found opened with
  | nil =>
      obtain rfl := Option.some.inj hvisit
      exact ⟨opened, .nil h⟩
  | cons ref l ih =>
      obtain ⟨a, _ | _⟩ := ref
      · rw [visitAll] at hvisit
        split at hvisit
        next ha =>
          have hw : Walked refs [(a, false)] found opened seen opened seen := .pass h ha
          obtain ⟨opened', ht⟩ := ih hvisit hw.marks
          exact ⟨opened', hw.cons ht⟩
        · have hw : Walked refs [(a, false)] found opened seen opened (insert a seen) :=
            .count h a
          obtain ⟨opened', ht⟩ := ih hvisit hw.marks
          exact ⟨opened', hw.cons ht⟩
      · obtain ⟨first, hfirst, hrest⟩ := Option.bind_eq_some_iff.mp hvisit
        obtain ⟨opened₁, hw⟩ := hopen a seen first found opened hfirst h
        obtain ⟨opened', ht⟩ := ih hrest hw.marks
        exact ⟨opened', hw.cons ht⟩

/-- What opening a place marks. -/
theorem exists_walked_openPlace {fuel : ℕ}
    (hvisit : openPlace refs weight fuel a seen = some r) (h : Marks opened found seen) :
    ∃ opened', Walked refs [(a, true)] found opened seen opened' r.2 := by
  induction fuel generalizing a seen r found opened with
  | zero => exact absurd hvisit (by simp [openPlace])
  | succ fuel ih =>
      rw [openPlace] at hvisit
      split at hvisit
      next ha =>
        obtain rfl := Option.some.inj hvisit
        exact ⟨opened, .pass h ha⟩
      · obtain ⟨opened', hw⟩ := exists_walked_visitAll (fun _ _ _ _ _ => ih) hvisit (h.insert a)
        exact ⟨opened', .open h hw⟩

/-- Going over references comes to the weight of what it marks. -/
theorem visitAll_total
    (hopen : ∀ a seen r, openAt a seen = some r →
      seen ⊆ r.2 ∧ r.1 = ∑ b ∈ r.2 \ seen, weight b)
    (hvisit : visitAll weight openAt l total seen = some r) :
    seen ⊆ r.2 ∧ r.1 = total + ∑ b ∈ r.2 \ seen, weight b := by
  induction l generalizing total seen with
  | nil =>
      obtain rfl := Option.some.inj hvisit
      simp
  | cons ref l ih =>
      obtain ⟨a, _ | _⟩ := ref
      · rw [visitAll] at hvisit
        split at hvisit
        · exact ih hvisit
        next ha =>
          obtain ⟨hsub, htotal⟩ := ih hvisit
          have hmem : a ∈ r.2 \ seen :=
            Finset.mem_sdiff.mpr ⟨hsub (Finset.mem_insert_self a seen), ha⟩
          refine ⟨(Finset.subset_insert a seen).trans hsub, ?_⟩
          rw [htotal, ← Finset.add_sum_erase _ weight hmem, ← Finset.sdiff_insert, add_assoc]
      · obtain ⟨first, hfirst, hrest⟩ := Option.bind_eq_some_iff.mp hvisit
        obtain ⟨hsub₁, htotal₁⟩ := hopen a seen first hfirst
        obtain ⟨hsub₂, htotal₂⟩ := ih hrest
        refine ⟨hsub₁.trans hsub₂, ?_⟩
        have hdisjoint : Disjoint (r.2 \ first.2) (first.2 \ seen) :=
          Finset.sdiff_disjoint.mono_right Finset.sdiff_subset
        rw [htotal₂, htotal₁, add_assoc, add_comm (∑ b ∈ first.2 \ seen, weight b),
          ← Finset.sum_union hdisjoint, Finset.sdiff_union_sdiff_cancel hsub₂ hsub₁]

/-- Opening a place comes to the weight of what it marks. -/
theorem openPlace_total {fuel : ℕ} (hvisit : openPlace refs weight fuel a seen = some r) :
    seen ⊆ r.2 ∧ r.1 = ∑ b ∈ r.2 \ seen, weight b := by
  induction fuel generalizing a seen r with
  | zero => exact absurd hvisit (by simp [openPlace])
  | succ fuel ih =>
      rw [openPlace] at hvisit
      split at hvisit
      · obtain rfl := Option.some.inj hvisit
        simp
      next ha =>
        obtain ⟨hsub, htotal⟩ := visitAll_total (fun _ _ _ => ih) hvisit
        have hmem : a ∈ r.2 \ seen :=
          Finset.mem_sdiff.mpr ⟨hsub (Finset.mem_insert_self a seen), ha⟩
        refine ⟨(Finset.subset_insert a seen).trans hsub, ?_⟩
        rw [htotal, ← Finset.add_sum_erase _ weight hmem, ← Finset.sdiff_insert]

/-- Going over references ends where opening places does. -/
theorem visitAll_isSome {known : Finset α} {n : ℕ}
    (hopen : ∀ a seen, (known \ seen).card < n → (openAt a seen).isSome)
    (hgrow : ∀ a seen r, openAt a seen = some r → seen ⊆ r.2) (hn : (known \ seen).card < n) :
    (visitAll weight openAt l total seen).isSome := by
  induction l generalizing total seen with
  | nil => rfl
  | cons ref l ih =>
      obtain ⟨a, _ | _⟩ := ref
      · rw [visitAll]
        split
        · exact ih hn
        · refine ih (lt_of_le_of_lt (Finset.card_le_card ?_) hn)
          exact Finset.sdiff_subset_sdiff subset_rfl (Finset.subset_insert a seen)
      · obtain ⟨first, hfirst⟩ := Option.isSome_iff_exists.mp (hopen a seen hn)
        rw [visitAll, hfirst]
        refine ih (lt_of_le_of_lt (Finset.card_le_card ?_) hn)
        exact Finset.sdiff_subset_sdiff subset_rfl (hgrow a seen first hfirst)

/-- **The walk ends**: with more fuel than there are unmarked places that refer to anything. -/
theorem openPlace_isSome {known : Finset α} (hknown : ∀ a, refs a ≠ [] → a ∈ known) {fuel : ℕ}
    (h : (known \ seen).card < fuel) : (openPlace refs weight fuel a seen).isSome := by
  induction fuel generalizing a seen with
  | zero => exact absurd h (Nat.not_lt_zero _)
  | succ fuel ih =>
      rw [openPlace]
      split
      · rfl
      next ha =>
        by_cases hrefs : refs a = []
        · rw [hrefs]
          rfl
        · refine visitAll_isSome (fun _ _ => ih) (fun _ _ _ hr => (openPlace_total hr).1)
            (lt_of_lt_of_le (Finset.card_lt_card ?_) (Nat.lt_succ_iff.mp h))
          refine Finset.ssubset_iff_subset_ne.mpr ⟨Finset.sdiff_subset_sdiff subset_rfl
            (Finset.subset_insert a seen), fun heq => ?_⟩
          have hmem : a ∈ known \ insert a seen :=
            heq ▸ Finset.mem_sdiff.mpr ⟨hknown a hrefs, ha⟩
          exact (Finset.mem_sdiff.mp hmem).2 (Finset.mem_insert_self a seen)

/-- What is mentioned, as a set of places and items: there are finitely many. -/
theorem exists_mentioned {known : Finset α} (hknown : ∀ a, refs a ≠ [] → a ∈ known)
    (l : Refs α) : ∃ all : Finset α, ∀ a, a ∈ all ↔ ∃ place, Mentions refs l a place := by
  classical
  let names (l : Refs α) : Finset α := (l.map Prod.fst).toFinset
  refine ⟨(names l ∪ known.biUnion fun b => names (refs b)).filter
    fun a => ∃ place, Mentions refs l a place, fun a => ?_⟩
  rw [Finset.mem_filter]
  refine and_iff_right_of_imp ?_
  rintro ⟨place, h⟩
  induction h with
  | here hmem => exact Finset.mem_union_left _ (List.mem_toFinset.mpr (List.mem_map_of_mem hmem))
  | @under l b a place hmem h ih =>
      rcases Finset.mem_union.mp ih with hmem | hmem
      · refine Finset.mem_union_right _ (Finset.mem_biUnion.mpr ⟨b, hknown b ?_, hmem⟩)
        rintro hnil
        simp [names, hnil] at hmem
      · exact Finset.mem_union_right _ hmem

/-- **A walk comes to the weight of everything that is mentioned**, if whatever has a weight is
safely mentioned. -/
theorem walk_eq_sum {known : Finset α} (hknown : ∀ a, refs a ≠ [] → a ∈ known) {fuel : ℕ}
    (hfuel : known.card < fuel)
    (hsafe : ∀ a place, Mentions refs l a place → weight a ≠ 0 → SafelyMentioned refs l a)
    {all : Finset α} (hall : ∀ a, a ∈ all ↔ ∃ place, Mentions refs l a place) :
    (walk refs weight fuel l).map Prod.fst = some (∑ a ∈ all, weight a) := by
  have hsome : (walk refs weight fuel l).isSome := by
    have hcard : ∀ seen : Finset α, (known \ seen).card < fuel := fun seen =>
      lt_of_le_of_lt (Finset.card_le_card Finset.sdiff_subset) hfuel
    exact visitAll_isSome (fun _ _ => openPlace_isSome hknown)
      (fun _ _ _ hr => (openPlace_total hr).1) (hcard ∅)
  obtain ⟨⟨total, seen⟩, hwalk⟩ := Option.isSome_iff_exists.mp hsome
  have htotal := (visitAll_total (fun _ _ _ => openPlace_total) hwalk).2
  have hstart : Marks (∅ : Set (α × Set α)) ∅ (∅ : Finset α) := ⟨by simp, by simp⟩
  obtain ⟨opened, hwalked⟩ :=
    exists_walked_visitAll (fun _ _ _ _ _ => exists_walked_openPlace) hwalk hstart
  rw [hwalk, Option.map_some, htotal, zero_add, Finset.sdiff_empty]
  refine congrArg some (Finset.sum_subset (fun a ha => (hall a).mpr ?_) fun a ha hnot => ?_)
  · exact (hwalked.mentioned a ha).resolve_left (Finset.notMem_empty a)
  · by_contra hweight
    obtain ⟨place, hplace⟩ := (hall a).mp ha
    exact hnot (hwalked.marks_safe (hsafe a place hplace hweight))

end Walk

end MarkedWalk
