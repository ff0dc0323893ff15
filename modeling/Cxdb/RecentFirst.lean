import Mathlib.Data.List.Perm.Basic
import Mathlib.Data.List.Sort
import Mathlib.Order.Basic

/-!
# The Newest Entries

A list is sorted by age, the newest entries first, and cut off. Whoever wants the newest entries
with a property then has to filter before cutting off: an entry without the property may have
taken the place of an older one that has it. Entries of one age stay in the order in which they
came, so which of them are cut off is up to that order.

## Main results

* `filter_take_mostRecent_iff`: filtering what is left of a sorted list is right if and only if
  nothing was cut off that has the property, or nothing was left that has it not.
* `forall_mostRecent_iff`: it is right in whatever order the entries come if and only if no
  entry can take the place of another.
-/

namespace RecentFirst

variable {α κ : Type*} [LinearOrder κ] (key : α → κ)

/-- The newest entries first, and those of one age as they come. -/
def newestFirst (l : List α) : List α :=
  l.mergeSort fun a b => key b ≤ key a

/-- Some entries are the `n` newest ones of a list with a property, or all of them if there are
fewer; which ones of one age does not matter. -/
structure MostRecent (n : ℕ) (l : List α) (p : α → Bool) (result : List α) : Prop where
  nodup : result.Nodup
  mem : ∀ a ∈ result, a ∈ l ∧ p a
  length : result.length = min n (l.countP p)
  sorted : result.Pairwise fun a b => key b ≤ key a
  newest : ∀ a ∈ l, p a → a ∉ result → ∀ b ∈ result, key a ≤ key b

/-- How many entries are newer than one. -/
def newer (l : List α) (b : α) : ℕ := l.countP fun c => key b < key c

/-- How many entries are not older than one, itself among them. -/
def notOlder (l : List α) (a : α) : ℕ := l.countP fun c => key a ≤ key c

variable {key} {l s : List α} {n : ℕ} {p : α → Bool}

theorem newestFirst_perm (key : α → κ) (l : List α) : (newestFirst key l).Perm l :=
  List.mergeSort_perm l _

theorem pairwise_newestFirst (key : α → κ) (l : List α) :
    (newestFirst key l).Pairwise fun a b => key b ≤ key a := by
  have htrans : ∀ a b c : α, decide (key b ≤ key a) → decide (key c ≤ key b) →
      decide (key c ≤ key a) := by
    simp only [decide_eq_true_eq]
    exact fun a b c hab hbc => hbc.trans hab
  have htotal : ∀ a b : α, decide (key b ≤ key a) || decide (key a ≤ key b) := by
    simpa using fun a b => le_total (key b) (key a)
  exact (List.pairwise_mergeSort htrans htotal l).imp fun h => of_decide_eq_true h

/-- An entry stays behind another that is not older. -/
theorem pair_sublist_newestFirst {a b : α} (hab : key b ≤ key a) (h : [a, b].Sublist l) :
    [a, b].Sublist (newestFirst key l) :=
  List.pair_sublist_mergeSort
    (fun a b c hab hbc => by simp only [decide_eq_true_eq] at *; exact hbc.trans hab)
    (fun a b => by simpa using le_total (key b) (key a)) (by simpa using hab) h

/-! ### A sorted list -/

/-- What is left over is not older than what is cut off. -/
theorem key_drop_le_take (hs : s.Pairwise fun a b => key b ≤ key a) (n : ℕ) {a b : α}
    (ha : a ∈ s.drop n) (hb : b ∈ s.take n) : key a ≤ key b := by
  rw [← List.take_append_drop n s, List.pairwise_append] at hs
  exact hs.2.2 b hb a ha

theorem length_take_of_mem_drop {a : α} (ha : a ∈ s.drop n) : (s.take n).length = n := by
  have hlen : n < s.length := by
    by_contra h
    rw [List.drop_eq_nil_of_le (Nat.le_of_not_lt h)] at ha
    exact List.not_mem_nil ha
  rw [List.length_take, Nat.min_eq_left hlen.le]

theorem countP_take_add_drop (s : List α) (n : ℕ) (p : α → Bool) :
    (s.take n).countP p + (s.drop n).countP p = s.countP p := by
  rw [← List.countP_append, List.take_append_drop]

/-- Enough entries are left over with the property, if only those were, or if none was cut
off. -/
theorem countP_take_eq_iff (s : List α) (n : ℕ) (p : α → Bool) :
    (s.take n).countP p = min n (s.countP p) ↔
      (∀ b ∈ s.take n, p b) ∨ ∀ a ∈ s.drop n, ¬p a := by
  have hsum := countP_take_add_drop s n p
  have htake : (s.take n).countP p ≤ n :=
    List.countP_le_length.trans (List.length_take_le n s)
  rw [← List.countP_eq_length, ← List.countP_eq_zero]
  by_cases hdrop : (s.drop n).countP p = 0
  · simp only [hdrop, or_true, iff_true]
    omega
  · obtain ⟨a, ha, -⟩ := List.countP_pos_iff.mp (Nat.pos_of_ne_zero hdrop)
    rw [length_take_of_mem_drop ha]
    omega

/-- Fewer than `n` are newer than one that is left over: those are left over too. -/
theorem newer_lt_of_mem_take (hs : s.Pairwise fun a b => key b ≤ key a) {a b : α}
    (hb : b ∈ s.take n) (ha : a ∈ s.drop n) : newer key s b < n := by
  have hzero : (s.drop n).countP (fun c => key b < key c) = 0 := by
    refine List.countP_eq_zero.mpr fun c hc => ?_
    simpa using key_drop_le_take hs n hc hb
  have hlt : (s.take n).countP (fun c => key b < key c) < (s.take n).length := by
    refine lt_of_le_of_ne List.countP_le_length fun heq => ?_
    simpa using List.countP_eq_length.mp heq b hb
  rw [newer, ← countP_take_add_drop s n, hzero, Nat.add_zero]
  rwa [length_take_of_mem_drop ha] at hlt

/-- More than `n` are not older than one that is cut off: all that are left over, and
itself. -/
theorem lt_notOlder_of_mem_drop (hs : s.Pairwise fun a b => key b ≤ key a) {a : α}
    (ha : a ∈ s.drop n) : n < notOlder key s a := by
  have htake : (s.take n).countP (fun c => key a ≤ key c) = n := by
    rw [List.countP_eq_length.mpr, length_take_of_mem_drop ha]
    intro c hc
    simpa using key_drop_le_take hs n ha hc
  have hpos : 0 < (s.drop n).countP fun c => key a ≤ key c :=
    List.countP_pos_iff.mpr ⟨a, ha, by simp⟩
  rw [notOlder, ← countP_take_add_drop s n, htake]
  omega

/-- **Filtering what is left over** gives the newest entries with the property if and only if
none of them was cut off, or only such are left. -/
theorem filter_take_mostRecent_iff (hnodup : s.Nodup)
    (hs : s.Pairwise fun a b => key b ≤ key a) :
    MostRecent key n s p ((s.take n).filter p) ↔
      (∀ b ∈ s.take n, p b) ∨ ∀ a ∈ s.drop n, ¬p a := by
  rw [← countP_take_eq_iff, List.countP_eq_length_filter]
  refine ⟨fun h => h.length, fun hlength => ?_⟩
  have hsub : ((s.take n).filter p).Sublist s := List.filter_sublist.trans (List.take_sublist n s)
  refine ⟨hnodup.sublist hsub, fun a ha => ⟨hsub.mem ha, List.of_mem_filter ha⟩, hlength,
    hs.sublist hsub, ?_⟩
  intro a ha hpa hout b hb
  have hcut : a ∈ s.drop n := by
    rw [← List.take_append_drop n s, List.mem_append] at ha
    exact ha.resolve_left fun hleft => hout (List.mem_filter.mpr ⟨hleft, hpa⟩)
  exact key_drop_le_take hs n hcut (List.mem_of_mem_filter hb)

theorem MostRecent.congr {l' : List α} (h : l.Perm l') {result : List α} :
    MostRecent key n l p result ↔ MostRecent key n l' p result := by
  constructor
  · intro hr
    exact ⟨hr.nodup, fun a ha => ⟨h.mem_iff.mp (hr.mem a ha).1, (hr.mem a ha).2⟩,
      by rw [hr.length, h.countP_eq], hr.sorted, fun a ha => hr.newest a (h.mem_iff.mpr ha)⟩
  · intro hr
    exact ⟨hr.nodup, fun a ha => ⟨h.mem_iff.mpr (hr.mem a ha).1, (hr.mem a ha).2⟩,
      by rw [hr.length, h.countP_eq], hr.sorted, fun a ha => hr.newest a (h.mem_iff.mp ha)⟩

/-! ### Every order -/

/-- What follows an entry that is cut off is cut off. -/
theorem mem_drop_of_pair (hnodup : s.Nodup) {a b : α} (h : [a, b].Sublist s)
    (ha : a ∈ s.drop n) : b ∈ s.drop n := by
  have happ := List.take_append_drop n s
  rw [← happ] at h hnodup
  have hdisjoint := List.disjoint_of_nodup_append hnodup
  obtain ⟨u, v, huv, hu, hv⟩ := List.sublist_append_iff.mp h
  rcases u with _ | ⟨c, u⟩
  · exact hv.mem (by simp [← show [a, b] = v from huv])
  · obtain rfl : a = c := List.head_eq_of_cons_eq huv
    exact absurd ha (hdisjoint (hu.mem List.mem_cons_self))

/-- One that fewer than `n` are newer than may be left over, and comes first for that. -/
theorem mem_take_of_newer (hnodup : l.Nodup) {b : α} (hb : b ∈ l)
    (hfirst : ∀ c ∈ l, c ≠ b → [b, c].Sublist l) (hnewer : newer key l b < n) :
    b ∈ (newestFirst key l).take n := by
  have hperm := newestFirst_perm key l
  by_contra hout
  have hdrop : b ∈ (newestFirst key l).drop n := by
    have hmem := hperm.mem_iff.mpr hb
    rw [← List.take_append_drop n (newestFirst key l), List.mem_append] at hmem
    exact hmem.resolve_left hout
  have hall : ∀ c ∈ (newestFirst key l).take n, decide (key b < key c) = true := by
    intro c hc
    rw [decide_eq_true_eq]
    by_contra hle
    have hne : c ≠ b := fun heq => hout (heq ▸ hc)
    have hpair := pair_sublist_newestFirst (not_lt.mp hle)
      (hfirst c (hperm.mem_iff.mp (List.mem_of_mem_take hc)) hne)
    have hnodup' := hperm.nodup_iff.mpr hnodup
    have hcut := mem_drop_of_pair hnodup' hpair hdrop
    rw [← List.take_append_drop n (newestFirst key l)] at hnodup'
    exact List.disjoint_of_nodup_append hnodup' hc hcut
  have hsum := countP_take_add_drop (newestFirst key l) n fun c => key b < key c
  rw [hperm.countP_eq, List.countP_eq_length.mpr hall, length_take_of_mem_drop hdrop] at hsum
  rw [newer] at hnewer
  omega

/-- One that more than `n` are not older than may be cut off, and comes last for that. -/
theorem mem_drop_of_notOlder (hnodup : l.Nodup) {a : α}
    (hlast : ∀ c ∈ l, c ≠ a → [c, a].Sublist l) (hnotOlder : n < notOlder key l a) :
    a ∈ (newestFirst key l).drop n := by
  have hperm := newestFirst_perm key l
  have hnodup' := hperm.nodup_iff.mpr hnodup
  by_contra hout
  have hall : ∀ c ∈ (newestFirst key l).drop n, ¬decide (key a ≤ key c) = true := by
    intro c hc
    rw [decide_eq_true_eq]
    intro hle
    have hne : c ≠ a := fun heq => hout (heq ▸ hc)
    have hpair := pair_sublist_newestFirst hle
      (hlast c (hperm.mem_iff.mp (List.mem_of_mem_drop hc)) hne)
    exact hout (mem_drop_of_pair hnodup' hpair hc)
  have hsum := countP_take_add_drop (newestFirst key l) n fun c => key a ≤ key c
  rw [hperm.countP_eq, List.countP_eq_zero.mpr hall, Nat.add_zero] at hsum
  rw [notOlder, ← hsum] at hnotOlder
  exact absurd hnotOlder
    (Nat.not_lt.mpr (List.countP_le_length.trans (List.length_take_le n _)))

/-- Two entries can be put at the ends. -/
theorem exists_perm_ends {a b : α} (ha : a ∈ l) (hb : b ∈ l) (hne : a ≠ b) :
    ∃ middle, (b :: (middle ++ [a])).Perm l := by
  obtain ⟨u, v, rfl⟩ := List.append_of_mem hb
  have hmem : a ∈ u ++ v := by
    simp only [List.mem_append, List.mem_cons] at ha ⊢
    tauto
  obtain ⟨u', v', huv⟩ := List.append_of_mem hmem
  refine ⟨u' ++ v', ?_⟩
  have hmiddle : ((u' ++ v') ++ [a]).Perm (u ++ v) := by
    rw [huv]
    exact (List.perm_append_singleton a _).trans List.perm_middle.symm
  exact (hmiddle.cons b).trans List.perm_middle.symm

/-- An entry without the property that is left over in some order where one with it is cut
off. -/
theorem exists_displaced {a b : α} (hnodup : l.Nodup) (ha : a ∈ l) (hb : b ∈ l) (hne : a ≠ b)
    (hnewer : newer key l b < n) (hnotOlder : n < notOlder key l a) :
    ∃ l', l'.Perm l ∧ b ∈ (newestFirst key l').take n ∧ a ∈ (newestFirst key l').drop n := by
  obtain ⟨middle, hperm⟩ := exists_perm_ends ha hb hne
  have hnodup' := hperm.nodup_iff.mpr hnodup
  refine ⟨_, hperm, mem_take_of_newer hnodup' (hperm.mem_iff.mpr hb) ?_ ?_,
    mem_drop_of_notOlder hnodup' ?_ ?_⟩
  · intro c hc hcb
    exact (List.singleton_sublist.mpr ((List.mem_cons.mp hc).resolve_left hcb)).cons_cons b
  · rw [newer, hperm.countP_eq]
    exact hnewer
  · intro c hc hca
    rw [← List.cons_append, List.mem_append, List.mem_singleton] at hc
    have hfront := List.singleton_sublist.mpr (hc.resolve_right hca)
    exact hfront.append (List.Sublist.refl [a])
  · rw [notOlder, hperm.countP_eq]
    exact hnotOlder

/-- **In every order** what is left over has the newest entries with the property, if and only
if there is no entry without it that can take the place of one with it: one that is not older,
that fewer than `n` are newer than, where more than `n` are not older than the other. -/
theorem forall_mostRecent_iff (hnodup : l.Nodup) :
    (∀ l', l'.Perm l →
        MostRecent key n l p (((newestFirst key l').take n).filter p)) ↔
      ∀ a ∈ l, ∀ b ∈ l, p a → ¬p b → key a ≤ key b → newer key l b < n →
        notOlder key l a ≤ n := by
  have hiff : ∀ l', l'.Perm l →
      (MostRecent key n l p (((newestFirst key l').take n).filter p) ↔
        (∀ b ∈ (newestFirst key l').take n, p b) ∨
          ∀ a ∈ (newestFirst key l').drop n, ¬p a) := by
    intro l' hperm
    have hall := (newestFirst_perm key l').trans hperm
    rw [← filter_take_mostRecent_iff (hall.nodup_iff.mpr hnodup) (pairwise_newestFirst key l')]
    exact (MostRecent.congr hall).symm
  constructor
  · intro h a ha b hb hpa hpb _ hnewer
    by_contra hnotOlder
    have hne : a ≠ b := fun heq => hpb (heq ▸ hpa)
    obtain ⟨l', hperm, htake, hdrop⟩ :=
      exists_displaced hnodup ha hb hne hnewer (Nat.lt_of_not_le hnotOlder)
    rcases (hiff l' hperm).mp (h l' hperm) with hall | hnone
    · exact hpb (hall b htake)
    · exact hnone a hdrop hpa
  · intro h l' hperm
    rw [hiff l' hperm]
    by_contra hwrong
    obtain ⟨⟨b, htake, hpb⟩, a, hdrop, hpa⟩ :
        (∃ b ∈ (newestFirst key l').take n, ¬p b) ∧
          ∃ a ∈ (newestFirst key l').drop n, p a := by
      simpa only [not_or, not_forall, not_not, exists_prop] using hwrong
    have hall := (newestFirst_perm key l').trans hperm
    have hnewer : newer key l b < n := by
      rw [newer, ← hall.countP_eq]
      exact newer_lt_of_mem_take (pairwise_newestFirst key l') htake hdrop
    have hnotOlder : n < notOlder key l a := by
      rw [notOlder, ← hall.countP_eq]
      exact lt_notOlder_of_mem_drop (pairwise_newestFirst key l') hdrop
    have hle := h a (hall.mem_iff.mp (List.mem_of_mem_drop hdrop)) b
      (hall.mem_iff.mp (List.mem_of_mem_take htake)) hpa hpb
      (key_drop_le_take (pairwise_newestFirst key l') n hdrop htake) hnewer
    exact absurd hnotOlder (Nat.not_lt.mpr hle)

end RecentFirst
