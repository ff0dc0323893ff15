import Mathlib.Data.Set.Card
import Cxdb.Store

/-!
# Descendants of a Context

`descendant_context_ids` searches the contexts below a context breadth first. What a context
says of its parent is what its client claims: a context can be its own parent, or two contexts
the parents of each other. The search ends all the same, with the contexts that are reached by
one or more child edges.

With a limit it stops as soon as it has as many contexts; it looks at the limit after the first
of them, so that a limit of zero is one of one.

## Main results

* `descend_spec`: what the search comes to.
* `descendants_listed_iff`: what is listed without a limit, and when it is with one.
* `limit_zero_lists_child`: the limit of zero.
-/

namespace Cxdb

namespace SecondaryIndexes

variable {ix : SecondaryIndexes} {limit : Option UInt32} {queue out : List UInt64}
  {visited : Finset UInt64} {p : UInt64}

/-- The index has a context as a child of another. -/
def ChildOf (ix : SecondaryIndexes) (parent id : UInt64) : Prop :=
  id ∈ ix.lookupParentExact parent

/-- A context is reached by one or more child edges. -/
def Descends (ix : SecondaryIndexes) : UInt64 → UInt64 → Prop := Relation.TransGen ix.ChildOf

theorem mem_childContextIds {parent id : UInt64} :
    id ∈ ix.childContextIds parent ↔ ix.ChildOf parent id :=
  Finset.mem_sort _

/-- What holds whenever the loop begins a round: what it has found or queued is below `p`, and
so is what is next to that and to `p`. -/
structure Searching (ix : SecondaryIndexes) (p : UInt64) (queue : List UInt64)
    (visited : Finset UInt64) (out : List UInt64) : Prop where
  visited : ∀ id, id ∈ visited ↔ id ∈ out
  nodup : out.Nodup
  sound : ∀ id, id ∈ out ∨ id ∈ queue → ix.Descends p id
  closed : ∀ parent, parent = p ∨ parent ∈ out → ∀ id, ix.ChildOf parent id →
    id ∈ out ∨ id ∈ queue

theorem searching_start (ix : SecondaryIndexes) (p : UInt64) :
    ix.Searching p (ix.childContextIds p) ∅ [] where
  visited id := by simp
  nodup := List.nodup_nil
  sound id h := by
    rcases h with h | h
    · cases h
    · exact .single (mem_childContextIds.mp h)
  closed parent h id hid := by
    rcases h with rfl | h
    · exact Or.inr (mem_childContextIds.mpr hid)
    · cases h

/-- A context that has been found is passed over. -/
theorem Searching.pass {contextId : UInt64} (h : ix.Searching p (contextId :: queue) visited out)
    (hmem : contextId ∈ visited) : ix.Searching p queue visited out where
  visited := h.visited
  nodup := h.nodup
  sound id hid := h.sound id (hid.imp_right (List.mem_cons_of_mem _))
  closed parent hparent id hid := by
    rcases h.closed parent hparent id hid with hid | hid
    · exact Or.inl hid
    · rcases List.mem_cons.mp hid with rfl | hid
      · exact Or.inl ((h.visited _).mp hmem)
      · exact Or.inr hid

/-- A context is found, and its children are queued. -/
theorem Searching.find {contextId : UInt64} (h : ix.Searching p (contextId :: queue) visited out)
    (hmem : contextId ∉ visited) :
    ix.Searching p
      (queue ++ (ix.childContextIds contextId).filter fun child =>
        child ∉ insert contextId visited)
      (insert contextId visited) (out ++ [contextId]) where
  visited id := by
    rw [Finset.mem_insert, h.visited, List.mem_append, List.mem_singleton, or_comm]
  nodup := by
    rw [h.visited] at hmem
    exact List.nodup_append.mpr ⟨h.nodup, List.nodup_singleton _, by
      rintro id hid _ hlast rfl
      exact hmem (List.mem_singleton.mp hlast ▸ hid)⟩
  sound id hid := by
    have hfirst := h.sound contextId (Or.inr List.mem_cons_self)
    rcases hid with hid | hid
    · rcases List.mem_append.mp hid with hid | hid
      · exact h.sound id (Or.inl hid)
      · exact List.mem_singleton.mp hid ▸ hfirst
    · rcases List.mem_append.mp hid with hid | hid
      · exact h.sound id (Or.inr (List.mem_cons_of_mem _ hid))
      · exact hfirst.tail (mem_childContextIds.mp (List.mem_filter.mp hid).1)
  closed parent hparent id hid := by
    simp only [List.mem_append, List.mem_singleton, List.mem_filter, decide_eq_true_eq,
      Finset.mem_insert, h.visited] at hparent ⊢
    rcases or_assoc.mpr hparent with hparent | rfl
    · rcases h.closed parent hparent id hid with hid | hid
      · exact Or.inl (Or.inl hid)
      · rcases List.mem_cons.mp hid with rfl | hid
        · exact Or.inl (Or.inr rfl)
        · exact Or.inr (Or.inl hid)
    · have hchild := mem_childContextIds.mpr hid
      tauto

/-- All that is below `p` is found when the queue is empty. -/
theorem Searching.complete (h : ix.Searching p [] visited out) {id : UInt64} :
    id ∈ out ↔ ix.Descends p id := by
  refine ⟨fun hid => h.sound id (Or.inl hid), fun hid => ?_⟩
  induction hid with
  | single hchild => exact (h.closed p (Or.inl rfl) _ hchild).resolve_right List.not_mem_nil
  | tail _ hchild ih => exact (h.closed _ (Or.inr ih) _ hchild).resolve_right List.not_mem_nil

/-- **What the search comes to**: all contexts below `p`, or as many of them as the limit
allows. -/
theorem descend_spec (h : ix.Searching p queue visited out)
    (hroom : ∀ n ∈ limit, out.length < n.toNat) :
    (ix.descend limit queue visited out).Nodup ∧
      (∀ id ∈ ix.descend limit queue visited out, ix.Descends p id) ∧
      ((∀ id, ix.Descends p id → id ∈ ix.descend limit queue visited out) ∧
          (∀ n ∈ limit, (ix.descend limit queue visited out).length < n.toNat) ∨
        ∃ n ∈ limit, (ix.descend limit queue visited out).length = n.toNat) := by
  induction queue, visited, out using descend.induct ix limit with
  | case1 visited out =>
      rw [descend]
      exact ⟨h.nodup, fun id hid => h.complete.mp hid,
        Or.inl ⟨fun id hid => h.complete.mpr hid, hroom⟩⟩
  | case2 visited out contextId queue hmem ih =>
      rw [descend, if_pos hmem]
      exact ih (h.pass hmem) hroom
  | case3 visited out contextId queue hmem out' hfull =>
      rw [descend, if_neg hmem, if_pos hfull]
      have hfind := h.find hmem
      refine ⟨hfind.nodup, fun id hid => hfind.sound id (Or.inl hid), Or.inr ?_⟩
      obtain ⟨n, hn, hle⟩ := (Option.any_eq_true _ _).mp hfull
      refine ⟨n, hn, le_antisymm ?_ (of_decide_eq_true hle)⟩
      have hlt := hroom n hn
      rw [List.length_append, List.length_singleton]
      exact hlt
  | case4 visited out contextId queue hmem visited' out' hfull ih =>
      rw [descend, if_neg hmem, if_neg hfull]
      refine ih (h.find hmem) fun n hn => lt_of_not_ge fun hle => ?_
      exact hfull ((Option.any_eq_true _ _).mpr ⟨n, hn, decide_eq_true hle⟩)

/-- Without a limit there is room for all contexts. -/
theorem room_of_no_limit : ∀ n ∈ (none : Option UInt32), ([] : List UInt64).length < n.toNat :=
  nofun

/-- Without a limit, the search comes to all contexts below `p`. -/
theorem mem_descend_all {id : UInt64} :
    id ∈ ix.descend none (ix.childContextIds p) ∅ [] ↔ ix.Descends p id := by
  obtain ⟨-, hsound, ⟨hall, -⟩ | ⟨n, hn, -⟩⟩ :=
    descend_spec (ix.searching_start p) room_of_no_limit
  · exact ⟨hsound id, hall id⟩
  · cases hn

/-- The limit of zero stops the search at the first child. -/
theorem descend_zero : ix.descend (some 0) (ix.childContextIds p) ∅ [] =
    (ix.childContextIds p).take 1 := by
  cases ix.childContextIds p with
  | nil => rw [descend, List.take_nil]
  | cons contextId queue =>
      rw [descend, if_neg (Finset.notMem_empty _), if_pos (by simp)]
      rfl

/-! ### What is listed -/

/-- A list in descending order, without duplicates, of contexts below `p`. -/
structure ListsBelow (ix : SecondaryIndexes) (p : UInt64) (ids : List UInt64) : Prop where
  nodup : ids.Nodup
  descending : ids.Pairwise (· ≥ ·)
  descends : ∀ id ∈ ids, ix.Descends p id

theorem mem_descendantContextIds {id : UInt64} : id ∈ ix.descendantContextIds p limit ↔
    id ∈ ix.descend limit (ix.childContextIds p) ∅ [] :=
  List.mem_mergeSort

theorem length_descendantContextIds : (ix.descendantContextIds p limit).length =
    (ix.descend limit (ix.childContextIds p) ∅ []).length :=
  List.length_mergeSort _

/-- The contexts of a search are listed in descending order. -/
theorem listsBelow (hnodup : (ix.descend limit (ix.childContextIds p) ∅ []).Nodup)
    (hsound : ∀ id ∈ ix.descend limit (ix.childContextIds p) ∅ [], ix.Descends p id) :
    ix.ListsBelow p (ix.descendantContextIds p limit) where
  nodup := (List.mergeSort_perm _ _).nodup_iff.mpr hnodup
  descending := by
    have htrans : ∀ a b c : UInt64, decide (b ≤ a) → decide (c ≤ b) → decide (c ≤ a) := by
      simp only [decide_eq_true_eq]
      exact fun a b c hab hbc => hbc.trans hab
    have htotal : ∀ a b : UInt64, decide (b ≤ a) || decide (a ≤ b) := by
      simpa using fun a b => le_total b a
    exact (List.pairwise_mergeSort htrans htotal _).imp fun h => of_decide_eq_true h
  descends id hid := hsound id (mem_descendantContextIds.mp hid)

theorem listsBelow_none : ix.ListsBelow p (ix.descendantContextIds p none) :=
  listsBelow (descend_spec (ix.searching_start p) room_of_no_limit).1
    fun _ hid => mem_descend_all.mp hid

theorem mem_descendantContextIds_none {id : UInt64} :
    id ∈ ix.descendantContextIds p none ↔ ix.Descends p id :=
  mem_descendantContextIds.trans mem_descend_all

/-- A list without duplicates of all contexts below `p` is as long as there are such contexts. -/
theorem ncard_descends {ids : List UInt64} (hnodup : ids.Nodup)
    (hmem : ∀ id, id ∈ ids ↔ ix.Descends p id) :
    Set.ncard {id | ix.Descends p id} = ids.length := by
  have hset : {id | ix.Descends p id} = (ids.toFinset : Set UInt64) := by
    ext id
    simp [hmem]
  rw [hset, Set.ncard_coe_finset, List.toFinset_card_of_nodup hnodup]

/-- A list of some contexts below `p` is not longer than there are such contexts. -/
theorem ListsBelow.length_le {ids : List UInt64} (h : ix.ListsBelow p ids) :
    ids.length ≤ Set.ncard {id | ix.Descends p id} := by
  rw [ncard_descends listsBelow_none.nodup fun _ => mem_descendantContextIds_none]
  exact (h.nodup.subperm fun id hid =>
    mem_descendantContextIds_none.mpr (h.descends id hid)).length_le

/-- A limit other than zero is what the list is cut to. -/
theorem listsBelow_some {n : UInt32} (hn : n ≠ 0) :
    ix.ListsBelow p (ix.descendantContextIds p (some n)) ∧
      (ix.descendantContextIds p (some n)).length =
        min n.toNat (Set.ncard {id | ix.Descends p id}) := by
  have hroom : ∀ m ∈ some n, ([] : List UInt64).length < m.toNat := by
    rintro m ⟨⟩
    exact Nat.pos_of_ne_zero fun h => hn (UInt32.toNat_inj.mp h)
  obtain ⟨hnodup, hsound, hcases⟩ := descend_spec (ix.searching_start p) hroom
  have hlists := listsBelow hnodup hsound
  refine ⟨hlists, ?_⟩
  rcases hcases with ⟨hall, hlt⟩ | ⟨m, hm, hlength⟩
  · have hcard := ncard_descends hnodup fun id => ⟨hsound id, hall id⟩
    rw [length_descendantContextIds, hcard, min_eq_right (hlt n rfl).le]
  · cases hm
    have hle := hlists.length_le
    rw [length_descendantContextIds, hlength] at hle
    rw [length_descendantContextIds, hlength, min_eq_left hle]

/-- **The descendants of a context are listed**, all of them without a limit, and as many as a
limit allows if and only if it is not zero or there is nothing to list. -/
theorem descendants_listed_iff (ix : SecondaryIndexes) (p : UInt64) :
    (ix.ListsBelow p (ix.descendantContextIds p none) ∧
      ∀ id, ix.Descends p id → id ∈ ix.descendantContextIds p none) ∧
    ∀ n : UInt32, (ix.ListsBelow p (ix.descendantContextIds p (some n)) ∧
        (ix.descendantContextIds p (some n)).length =
          min n.toNat (Set.ncard {id | ix.Descends p id})) ↔
      (n ≠ 0 ∨ ∀ id, ¬ ix.ChildOf p id) := by
  refine ⟨⟨listsBelow_none, fun id => mem_descendantContextIds_none.mpr⟩, fun n => ?_⟩
  by_cases hn : n = 0
  · subst hn
    have hzero : ix.descendantContextIds p (some 0) = (ix.childContextIds p).take 1 := by
      rw [descendantContextIds, descend_zero]
      cases ix.childContextIds p <;> simp
    constructor
    · rintro ⟨-, hlength⟩
      refine Or.inr fun id hid => ?_
      have hmem := mem_childContextIds.mpr hid
      rw [hzero] at hlength
      cases hchildren : ix.childContextIds p with
      | nil => rw [hchildren] at hmem; cases hmem
      | cons => rw [hchildren] at hlength; simp at hlength
    · rintro (h | h)
      · exact absurd rfl h
      · have hnil : ix.childContextIds p = [] :=
          List.eq_nil_iff_forall_not_mem.mpr fun id hid => h id (mem_childContextIds.mp hid)
        rw [hzero, hnil]
        exact ⟨⟨List.nodup_nil, List.Pairwise.nil, fun id hid => by cases hid⟩, by simp⟩
  · exact iff_of_true (listsBelow_some hn) (Or.inl hn)

/-- A context that says it was spawned by context 1. -/
def spawnedContext : NewContext where
  contextId := 2
  metadata := some
    { clientTag := none, title := none, labels := none,
      provenance := some
        { parentContextId := some 1, spawnReason := none, rootContextId := none,
          traceId := none, onBehalfOf := none, serviceName := none, hostName := none } }
  createdAtUnixMs := 0
  depth := 0

/-- A limit of zero lists a child. -/
theorem limit_zero_lists_child :
    ¬ ∀ n : UInt32,
      ((addContexts .ascii .new [spawnedContext]).descendantContextIds 1 (some n)).length =
        min n.toNat
          (Set.ncard {id | (addContexts .ascii .new [spawnedContext]).Descends 1 id}) := by
  intro h
  have hzero := h 0
  rw [length_descendantContextIds, descend_zero] at hzero
  have hchildren :
      (addContexts .ascii .new [spawnedContext]).childContextIds 1 = [2] := by
    decide +kernel
  rw [hchildren] at hzero
  simp at hzero

end SecondaryIndexes

end Cxdb
