import Cxdb.IterationOrder

/-!
# Differences of Maps

What tells one finite map from another: the keys that only the new one has, those that only the
old one has, and those that the two map to different values. The keys come in any order.

## Main results

* `IsDiff.isEmpty_iff`: there is no difference between equal maps, and between no others.
* `IsDiff.replay_eq`: the difference, and the new values of its keys, make the new map of the
  old one.
* `IsDiff.mirror`: the difference in the other direction.
* `IsDiff.of_image_iff`: when a difference of images is one of the maps.
-/

namespace MapDiffs

open IterationOrder LastWrite

variable {κ α β : Type} [DecidableEq κ]

/-- The keys by which two maps differ. -/
structure Diff (κ : Type) where
  added : List κ
  removed : List κ
  modified : List κ
  deriving DecidableEq

/-- `d` is what tells `m'` from `m`. -/
structure IsDiff (m m' : HashMap κ α) (d : Diff κ) : Prop where
  nodup_added : d.added.Nodup
  nodup_removed : d.removed.Nodup
  nodup_modified : d.modified.Nodup
  mem_added : ∀ k, k ∈ d.added ↔ k ∉ m ∧ k ∈ m'
  mem_removed : ∀ k, k ∈ d.removed ↔ k ∈ m ∧ k ∉ m'
  mem_modified : ∀ k, k ∈ d.modified ↔
    ∃ a a', m.lookup k = some a ∧ m'.lookup k = some a' ∧ a ≠ a'

/-- There is nothing in a difference. -/
def Diff.isEmpty (d : Diff κ) : Bool :=
  d.added.length == 0 && d.removed.length == 0 && d.modified.length == 0

/-- Apply a difference: take away what was removed, and write the new values of the others. -/
def Diff.replay (d : Diff κ) (m m' : HashMap κ α) : HashMap κ α :=
  insertAll Prod.fst Prod.snd (d.removed.foldl (fun m k => m.erase k) m)
    (entriesIn m' (d.added ++ d.modified))

/-- Two differences have the same keys. -/
structure Diff.Same (d d' : Diff κ) : Prop where
  added : ∀ k, k ∈ d.added ↔ k ∈ d'.added
  removed : ∀ k, k ∈ d.removed ↔ k ∈ d'.removed
  modified : ∀ k, k ∈ d.modified ↔ k ∈ d'.modified

/-- The difference in the other direction. -/
def Diff.mirror (d : Diff κ) : Diff κ := ⟨d.removed, d.added, d.modified⟩

variable {m m' : HashMap κ α} {d d' : Diff κ}

namespace IsDiff

theorem not_mem_removed (h : IsDiff m m' d) {k : κ} (hk : k ∈ d.added) : k ∉ d.removed :=
  fun hr => ((h.mem_added k).mp hk).1 ((h.mem_removed k).mp hr).1

theorem added_not_modified (h : IsDiff m m' d) {k : κ} (hk : k ∈ d.added) :
    k ∉ d.modified := by
  intro hm
  obtain ⟨a, -, ha, -⟩ := (h.mem_modified k).mp hm
  exact ((h.mem_added k).mp hk).1 (Finmap.mem_of_lookup_eq_some ha)

theorem removed_not_modified (h : IsDiff m m' d) {k : κ} (hk : k ∈ d.removed) :
    k ∉ d.modified := by
  intro hm
  obtain ⟨-, a', -, ha', -⟩ := (h.mem_modified k).mp hm
  exact ((h.mem_removed k).mp hk).2 (Finmap.mem_of_lookup_eq_some ha')

/-- A key that is in no part of the difference has kept its value, if it had one. -/
theorem lookup_eq (h : IsDiff m m' d) {k : κ} (ha : k ∉ d.added) (hr : k ∉ d.removed)
    (hm : k ∉ d.modified) : m.lookup k = m'.lookup k := by
  rw [h.mem_added] at ha
  rw [h.mem_removed] at hr
  rw [h.mem_modified] at hm
  cases hold : m.lookup k with
  | none =>
      have hnot : k ∉ m := Finmap.lookup_eq_none.mp hold
      have hnot' : k ∉ m' := fun hk => ha ⟨hnot, hk⟩
      exact (Finmap.lookup_eq_none.mpr hnot').symm
  | some a =>
      have hmem : k ∈ m := Finmap.mem_of_lookup_eq_some hold
      have hmem' : k ∈ m' := by
        by_contra hnot
        exact hr ⟨hmem, hnot⟩
      obtain ⟨a', hnew⟩ := Finmap.mem_iff.mp hmem'
      rw [hnew]
      by_contra hne
      exact hm ⟨a, a', hold, hnew, fun heq => hne (congrArg some heq)⟩

/-- **No difference is there between equal maps**, and between no others. -/
theorem isEmpty_iff (h : IsDiff m m' d) : d.isEmpty = true ↔ m = m' := by
  rw [Diff.isEmpty, Bool.and_eq_true, Bool.and_eq_true, beq_iff_eq, beq_iff_eq, beq_iff_eq,
    List.length_eq_zero_iff, List.length_eq_zero_iff, List.length_eq_zero_iff]
  constructor
  · rintro ⟨⟨ha, hr⟩, hm⟩
    refine Finmap.ext_lookup fun k => h.lookup_eq ?_ ?_ ?_
    · simp [ha]
    · simp [hr]
    · simp [hm]
  · rintro rfl
    refine ⟨⟨?_, ?_⟩, ?_⟩
    · exact List.eq_nil_iff_forall_not_mem.mpr fun k hk =>
        ((h.mem_added k).mp hk).1 ((h.mem_added k).mp hk).2
    · exact List.eq_nil_iff_forall_not_mem.mpr fun k hk =>
        ((h.mem_removed k).mp hk).2 ((h.mem_removed k).mp hk).1
    · refine List.eq_nil_iff_forall_not_mem.mpr fun k hk => ?_
      obtain ⟨a, a', ha, ha', hne⟩ := (h.mem_modified k).mp hk
      exact hne (Option.some.inj (ha.symm.trans ha'))

end IsDiff

theorem lookup_foldl_erase (m : HashMap κ α) (ks : List κ) (k : κ) :
    (ks.foldl (fun m k => m.erase k) m).lookup k = if k ∈ ks then none else m.lookup k := by
  induction ks generalizing m with
  | nil => simp
  | cons k' ks ih =>
      rw [List.foldl_cons, ih]
      by_cases hks : k ∈ ks
      · rw [if_pos hks, if_pos (List.mem_cons_of_mem _ hks)]
      · rw [if_neg hks]
        by_cases hk : k = k'
        · rw [hk, Finmap.lookup_erase, if_pos List.mem_cons_self]
        · rw [Finmap.lookup_erase_ne hk, if_neg (by simp [hk, hks])]

/-- The entries of a map at some keys, written over another map. -/
theorem lookup_insertAll_entriesIn (m m' : HashMap κ α) (ks : List κ) (k : κ) :
    (insertAll Prod.fst Prod.snd m (entriesIn m' ks)).lookup k =
      if k ∈ ks ∧ k ∈ m' then m'.lookup k else m.lookup k := by
  have hentry : ∀ b ∈ entriesIn m' ks, m'.lookup b.1 = some b.2 ∧ b.1 ∈ ks := by
    intro b hb
    obtain ⟨k', hk', hb⟩ := List.mem_filterMap.mp hb
    obtain ⟨a, ha, rfl⟩ := Option.map_eq_some_iff.mp hb
    exact ⟨ha, hk'⟩
  split_ifs with h
  · obtain ⟨a, ha⟩ := Finmap.mem_iff.mp h.2
    have hmem : (k, a) ∈ entriesIn m' ks :=
      List.mem_filterMap.mpr ⟨k, h.1, by rw [ha, Option.map_some]⟩
    rw [ha]
    refine lookup_insertAll_of_unique hmem fun c hc heq => ?_
    have hval := (hentry c hc).1
    rw [heq] at hval
    exact Option.some.inj (hval.symm.trans ha)
  · refine lookup_insertAll_of_forall_ne fun b hb heq => h ?_
    obtain ⟨hval, hks⟩ := hentry b hb
    exact heq ▸ ⟨hks, Finmap.mem_of_lookup_eq_some hval⟩

namespace IsDiff

/-- **The difference makes the new map of the old one.** -/
theorem replay_eq (h : IsDiff m m' d) : d.replay m m' = m' := by
  refine Finmap.ext_lookup fun k => ?_
  rw [Diff.replay, lookup_insertAll_entriesIn, lookup_foldl_erase]
  by_cases hnew : k ∈ m'
  · by_cases hwritten : k ∈ d.added ++ d.modified
    · rw [if_pos ⟨hwritten, hnew⟩]
    · have hr : k ∉ d.removed := fun hr => ((h.mem_removed k).mp hr).2 hnew
      rw [if_neg (fun hk => hwritten hk.1), if_neg hr]
      rw [List.mem_append, not_or] at hwritten
      exact h.lookup_eq hwritten.1 hr hwritten.2
  · rw [if_neg (fun hk => hnew hk.2), Finmap.lookup_eq_none.mpr hnew]
    split_ifs with hr
    · rfl
    · rw [h.mem_removed, not_and_not_right] at hr
      exact Finmap.lookup_eq_none.mpr fun hk => hnew (hr hk)

/-- **The difference in the other direction.** -/
theorem mirror (h : IsDiff m m' d) : IsDiff m' m d.mirror where
  nodup_added := h.nodup_removed
  nodup_removed := h.nodup_added
  nodup_modified := h.nodup_modified
  mem_added k := (h.mem_removed k).trans and_comm
  mem_removed k := (h.mem_added k).trans and_comm
  mem_modified k := by
    rw [Diff.mirror, h.mem_modified]
    constructor
    · rintro ⟨a, a', ha, ha', hne⟩
      exact ⟨a', a, ha', ha, hne.symm⟩
    · rintro ⟨a, a', ha, ha', hne⟩
      exact ⟨a', a, ha', ha, hne.symm⟩

/-- Two maps have one difference, but for the order. -/
theorem same (h : IsDiff m m' d) (h' : IsDiff m m' d') : d.Same d' where
  added k := (h.mem_added k).trans (h'.mem_added k).symm
  removed k := (h.mem_removed k).trans (h'.mem_removed k).symm
  modified k := (h.mem_modified k).trans (h'.mem_modified k).symm

/-- **When a difference of images is one of the maps**: no key of both has two values with one
image. -/
theorem of_image_iff {f : α → β} {n n' : HashMap κ β}
    (hn : ∀ k, n.lookup k = (m.lookup k).map f) (hn' : ∀ k, n'.lookup k = (m'.lookup k).map f)
    (h : IsDiff n n' d) :
    IsDiff m m' d ↔
      ∀ k a a', m.lookup k = some a → m'.lookup k = some a' → f a = f a' → a = a' := by
  have hmem : ∀ k, k ∈ n ↔ k ∈ m := by
    intro k
    rw [← Finmap.lookup_isSome, ← Finmap.lookup_isSome, hn, Option.isSome_map]
  have hmem' : ∀ k, k ∈ n' ↔ k ∈ m' := by
    intro k
    rw [← Finmap.lookup_isSome, ← Finmap.lookup_isSome, hn', Option.isSome_map]
  have himage : ∀ k, k ∈ d.modified ↔
      ∃ a a', m.lookup k = some a ∧ m'.lookup k = some a' ∧ f a ≠ f a' := by
    intro k
    rw [h.mem_modified, hn, hn']
    simp only [Option.map_eq_some_iff]
    constructor
    · rintro ⟨-, -, ⟨a, ha, rfl⟩, ⟨a', ha', rfl⟩, hne⟩
      exact ⟨a, a', ha, ha', hne⟩
    · rintro ⟨a, a', ha, ha', hne⟩
      exact ⟨_, _, ⟨a, ha, rfl⟩, ⟨a', ha', rfl⟩, hne⟩
  constructor
  · intro hd k a a' ha ha' heq
    by_contra hne
    obtain ⟨b, b', hb, hb', hf⟩ := (himage k).mp ((hd.mem_modified k).mpr ⟨a, a', ha, ha', hne⟩)
    rw [ha] at hb
    rw [ha'] at hb'
    obtain rfl := Option.some.inj hb
    obtain rfl := Option.some.inj hb'
    exact hf heq
  · intro hinj
    refine ⟨h.nodup_added, h.nodup_removed, h.nodup_modified, fun k => ?_, fun k => ?_,
      fun k => ?_⟩
    · rw [h.mem_added, hmem, hmem']
    · rw [h.mem_removed, hmem, hmem']
    · rw [himage]
      refine exists_congr fun a => exists_congr fun a' => and_congr_right fun ha =>
        and_congr_right fun ha' => ?_
      exact ⟨fun hne heq => hne (congrArg f heq), fun hne heq => hne (hinj k a a' ha ha' heq)⟩

end IsDiff

end MapDiffs
