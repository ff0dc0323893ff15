import Cxdb.LastWrite
import Mathlib.Data.Set.Lattice

/-!
# Loops That Fail on the Way

A loop over a list whose body changes a state in place and may fail. A failing pass ends the
loop, and the state stays as the passes so far and the failing one have left it: nothing is
rolled back.

What such a loop gathers is described by the facts that a state holds, a set that no pass
takes from. The order of the passes then does not matter for what a loop gathers that comes
to its end.

## Main results

* `run_facts`: a loop that succeeds has gathered the facts of its entries, and no others.
* `run_ok`: it succeeds when every pass does that finds part of what is to be gathered.
* `run_eq_ok_iff`, `run_eq_error_iff`: when a loop leaves the state as it was.
* `enter_ok_iff`, `graph_enter`: the loop body that enters a value under a key, or finds it
  there.
-/

namespace FailingLoop

variable {α σ ε φ : Type}

/-- The loop. -/
def run (body : α → σ → Except ε Unit × σ) : List α → σ → Except ε Unit × σ
  | [], s => (.ok (), s)
  | a :: as, s =>
      match body a s with
      | (.ok (), s') => run body as s'
      | (.error e, s') => (.error e, s')

variable {body : α → σ → Except ε Unit × σ} {as : List α} {s s' : σ}

@[simp] theorem run_nil : run body [] s = (.ok (), s) := rfl

theorem run_cons_of_ok {a : α} {t : σ} (h : body a s = (.ok (), t)) :
    run body (a :: as) s = run body as t := by
  rw [run, h]

theorem run_cons_of_error {a : α} {e : ε} {t : σ} (h : body a s = (.error e, t)) :
    run body (a :: as) s = (.error e, t) := by
  rw [run, h]

/-- A pass succeeds or fails. -/
theorem body_cases (body : α → σ → Except ε Unit × σ) (a : α) (s : σ) :
    (∃ t, body a s = (.ok (), t)) ∨ ∃ e t, body a s = (.error e, t) := by
  obtain ⟨x, t⟩ := body a s
  cases x with
  | ok u => exact Or.inl ⟨t, rfl⟩
  | error e => exact Or.inr ⟨e, t, rfl⟩

/-- **Invariants.** What every pass keeps, also one that fails, the loop keeps. -/
theorem run_keeps {P : σ → Prop} (hbody : ∀ a ∈ as, ∀ s, P s → P (body a s).2) (hs : P s) :
    P (run body as s).2 := by
  induction as generalizing s with
  | nil => exact hs
  | cons a as ih =>
      have ha := hbody a (by simp) s hs
      have hrest : ∀ a' ∈ as, ∀ s, P s → P (body a' s).2 :=
        fun a' ha' => hbody a' (List.mem_cons_of_mem _ ha')
      rcases body_cases body a s with ⟨t, ht⟩ | ⟨e, t, ht⟩
      · rw [run_cons_of_ok ht]
        exact ih hrest (by simpa [ht] using ha)
      · rw [run_cons_of_error ht]
        simpa [ht] using ha

/-- What every pass that succeeds keeps, a loop that succeeds keeps. -/
theorem run_keeps_of_ok {P : σ → Prop}
    (hbody : ∀ a ∈ as, ∀ s s', P s → body a s = (.ok (), s') → P s')
    (h : run body as s = (.ok (), s')) (hs : P s) : P s' := by
  induction as generalizing s with
  | nil => exact (Prod.mk.inj h).2 ▸ hs
  | cons a as ih =>
      rcases body_cases body a s with ⟨t, ht⟩ | ⟨e, t, ht⟩
      · rw [run_cons_of_ok ht] at h
        exact ih (fun a' ha' => hbody a' (List.mem_cons_of_mem _ ha')) h
          (hbody a (by simp) s t hs ht)
      · rw [run_cons_of_error ht] at h
        exact absurd (Prod.mk.inj h).1 (by simp)

/-- What a pass brings about that succeeds, and later passes keep, holds of every entry of a
loop that succeeds. -/
theorem run_brings {P : σ → Prop} {Q : α → σ → Prop}
    (hbody : ∀ a ∈ as, ∀ s s', P s → body a s = (.ok (), s') → P s' ∧ Q a s' ∧
      ∀ b, Q b s → Q b s')
    (h : run body as s = (.ok (), s')) (hs : P s) : ∀ a ∈ as, Q a s' := by
  induction as generalizing s with
  | nil => simp
  | cons a as ih =>
      rcases body_cases body a s with ⟨t, ht⟩ | ⟨e, t, ht⟩
      · rw [run_cons_of_ok ht] at h
        obtain ⟨hPt, hQt, -⟩ := hbody a (by simp) s t hs ht
        have hrest : ∀ a' ∈ as, ∀ s s', P s → body a' s = (.ok (), s') → P s' ∧ Q a' s' ∧
            ∀ b, Q b s → Q b s' := fun a' ha' => hbody a' (List.mem_cons_of_mem _ ha')
        rw [List.forall_mem_cons]
        refine ⟨?_, ih hrest h hPt⟩
        exact (run_keeps_of_ok (P := fun u => P u ∧ Q a u)
          (fun a' ha' u u' hu hok => by
            obtain ⟨hP, -, hQ⟩ := hrest a' ha' u u' hu.1 hok
            exact ⟨hP, hQ a hu.2⟩) h ⟨hPt, hQt⟩).2
      · rw [run_cons_of_error ht] at h
        exact absurd (Prod.mk.inj h).1 (by simp)

/-! ### What a loop gathers -/

/-- The facts of the entries of a list. -/
def gathered (new : α → Set φ) (as : List α) : Set φ := {f | ∃ a ∈ as, f ∈ new a}

section Gathers

variable {new : α → Set φ}

@[simp] theorem gathered_nil : gathered new [] = ∅ := by simp [gathered]

@[simp] theorem gathered_cons (a : α) : gathered new (a :: as) = new a ∪ gathered new as := by
  ext f
  simp [gathered]

variable (I : σ → Prop) (facts : σ → Set φ) (new : α → Set φ) (T : Set φ)

/-- **What a loop gathers.** Below `T`, a pass that succeeds adds the facts of its entry. So
does the loop for all its entries. -/
theorem run_facts
    (hpass : ∀ a ∈ as, ∀ s s', I s → facts s ∪ new a ⊆ T → body a s = (.ok (), s') →
      I s' ∧ facts s' = facts s ∪ new a)
    (hI : I s) (hT : facts s ∪ gathered new as ⊆ T) (h : run body as s = (.ok (), s')) :
    I s' ∧ facts s' = facts s ∪ gathered new as := by
  induction as generalizing s with
  | nil =>
      obtain rfl := (Prod.mk.inj h).2
      exact ⟨hI, by simp⟩
  | cons a as ih =>
      rw [gathered_cons, ← Set.union_assoc] at hT
      rcases body_cases body a s with ⟨t, ht⟩ | ⟨e, t, ht⟩
      · obtain ⟨hIt, hft⟩ := hpass a (by simp) s t hI
          (fun f hf => hT (Set.mem_union_left _ hf)) ht
        rw [run_cons_of_ok ht] at h
        obtain ⟨hI', hf'⟩ := ih (fun a' ha' => hpass a' (List.mem_cons_of_mem _ ha')) hIt
          (by rwa [hft]) h
        exact ⟨hI', by rw [hf', hft, gathered_cons, Set.union_assoc]⟩
      · rw [run_cons_of_error ht] at h
        exact absurd (Prod.mk.inj h).1 (by simp)

/-- **When a loop succeeds.** Below `T`, every pass succeeds. -/
theorem run_ok
    (hpass : ∀ a ∈ as, ∀ s s', I s → facts s ∪ new a ⊆ T → body a s = (.ok (), s') →
      I s' ∧ facts s' = facts s ∪ new a)
    (hok : ∀ a ∈ as, ∀ s, I s → facts s ∪ new a ⊆ T → ∃ s', body a s = (.ok (), s'))
    (hI : I s) (hT : facts s ∪ gathered new as ⊆ T) :
    ∃ s', run body as s = (.ok (), s') := by
  induction as generalizing s with
  | nil => exact ⟨s, rfl⟩
  | cons a as ih =>
      rw [gathered_cons, ← Set.union_assoc] at hT
      have ha : facts s ∪ new a ⊆ T := fun f hf => hT (Set.mem_union_left _ hf)
      obtain ⟨t, ht⟩ := hok a (by simp) s hI ha
      obtain ⟨hIt, hft⟩ := hpass a (by simp) s t hI ha ht
      rw [run_cons_of_ok ht]
      exact ih (fun a' ha' => hpass a' (List.mem_cons_of_mem _ ha'))
        (fun a' ha' => hok a' (List.mem_cons_of_mem _ ha')) hIt (by rwa [hft])

end Gathers

/-! ### Loops that change nothing -/

/-- The first entry that is not known is one that is refused. -/
def StopsAt (refused known : α → Prop) : List α → Prop
  | [] => False
  | a :: as => refused a ∨ known a ∧ StopsAt refused known as

instance (refused known : α → Prop) [DecidablePred refused] [DecidablePred known] :
    (as : List α) → Decidable (StopsAt refused known as)
  | [] => inferInstanceAs (Decidable False)
  | a :: as =>
      have : Decidable (StopsAt refused known as) :=
        instDecidableStopsAtOfDecidablePred refused known as
      inferInstanceAs (Decidable (refused a ∨ known a ∧ StopsAt refused known as))

variable {refused known : α → Prop} {I : σ → Prop} {facts : σ → Set φ}

/-- A pass never takes facts away. -/
theorem facts_subset_run (hgrow : ∀ a ∈ as, ∀ s, facts s ⊆ facts (body a s).2) :
    facts s ⊆ facts (run body as s).2 :=
  run_keeps (P := fun t => facts s ⊆ facts t)
    (fun a ha t ht => ht.trans (hgrow a ha t)) (Set.Subset.refl _)

/-- A loop that ends in the state that it began in never left it. -/
theorem body_eq_of_run_eq (hgrow : ∀ a, ∀ s, I s → I (body a s).2 ∧ facts s ⊆ facts (body a s).2)
    (hinj : ∀ s t, I s → I t → facts s = facts t → s = t) {a : α} (hI : I s)
    (h : (run body (a :: as) s).2 = s) : (body a s).2 = s := by
  obtain ⟨hIa, hsub⟩ := hgrow a s hI
  rcases body_cases body a s with ⟨t, ht⟩ | ⟨e, t, ht⟩
  · rw [ht] at hIa hsub ⊢
    rw [run_cons_of_ok ht] at h
    refine hinj t s hIa hI (Set.Subset.antisymm ?_ hsub)
    have hrest : I (run body as t).2 ∧ facts t ⊆ facts (run body as t).2 :=
      run_keeps (P := fun u => I u ∧ facts t ⊆ facts u)
        (fun a _ u hu => ⟨(hgrow a u hu.1).1, hu.2.trans (hgrow a u hu.1).2⟩)
        ⟨hIa, Set.Subset.refl _⟩
    rw [h] at hrest
    exact hrest.2
  · rw [run_cons_of_error ht] at h
    rw [ht]
    exact h

/-- A loop succeeds without a change when it knows every entry. -/
theorem run_eq_ok_iff
    (hgrow : ∀ a, ∀ s, I s → I (body a s).2 ∧ facts s ⊆ facts (body a s).2)
    (hinj : ∀ s t, I s → I t → facts s = facts t → s = t)
    (hknown : ∀ a ∈ as, (body a s = (.ok (), s) ↔ known a)) (hI : I s) :
    run body as s = (.ok (), s) ↔ ∀ a ∈ as, known a := by
  induction as with
  | nil => simp
  | cons a as ih =>
      have ih := ih fun a' ha' => hknown a' (List.mem_cons_of_mem _ ha')
      rw [List.forall_mem_cons, ← ih, ← hknown a (by simp)]
      constructor
      · intro h
        have ha := body_eq_of_run_eq hgrow hinj hI (congrArg Prod.snd h)
        rcases body_cases body a s with ⟨t, ht⟩ | ⟨e, t, ht⟩
        · obtain rfl : t = s := by rw [ht] at ha; exact ha
          exact ⟨ht, by rwa [run_cons_of_ok ht] at h⟩
        · rw [run_cons_of_error ht] at h
          exact absurd (Prod.mk.inj h).1 (by simp)
      · rintro ⟨ha, hrest⟩
        rw [run_cons_of_ok ha, hrest]

/-- A loop fails without a change when the first entry that it does not know is refused. -/
theorem run_eq_error_iff
    (hgrow : ∀ a, ∀ s, I s → I (body a s).2 ∧ facts s ⊆ facts (body a s).2)
    (hinj : ∀ s t, I s → I t → facts s = facts t → s = t)
    (hknown : ∀ a ∈ as, (body a s = (.ok (), s) ↔ known a))
    (hrefused : ∀ a ∈ as, ((∃ e, body a s = (.error e, s)) ↔ refused a)) (hI : I s) :
    (∃ e, run body as s = (.error e, s)) ↔ StopsAt refused known as := by
  induction as with
  | nil => simp [StopsAt]
  | cons a as ih =>
      have ih := ih (fun a' ha' => hknown a' (List.mem_cons_of_mem _ ha'))
        fun a' ha' => hrefused a' (List.mem_cons_of_mem _ ha')
      rw [StopsAt, ← ih, ← hknown a (by simp), ← hrefused a (by simp)]
      constructor
      · rintro ⟨e, h⟩
        have ha := body_eq_of_run_eq hgrow hinj hI (congrArg Prod.snd h)
        rcases body_cases body a s with ⟨t, ht⟩ | ⟨e', t, ht⟩
        · obtain rfl : t = s := by rw [ht] at ha; exact ha
          exact Or.inr ⟨ht, e, by rwa [run_cons_of_ok ht] at h⟩
        · obtain rfl : t = s := by rw [ht] at ha; exact ha
          exact Or.inl ⟨e', ht⟩
      · rintro (⟨e, ha⟩ | ⟨ha, e, hrest⟩)
        · exact ⟨e, run_cons_of_error ha⟩
        · exact ⟨e, by rw [run_cons_of_ok ha, hrest]⟩

/-- A loop changes nothing in one of these two ways. -/
theorem run_snd_eq_iff
    (hgrow : ∀ a, ∀ s, I s → I (body a s).2 ∧ facts s ⊆ facts (body a s).2)
    (hinj : ∀ s t, I s → I t → facts s = facts t → s = t)
    (hknown : ∀ a ∈ as, (body a s = (.ok (), s) ↔ known a))
    (hrefused : ∀ a ∈ as, ((∃ e, body a s = (.error e, s)) ↔ refused a)) (hI : I s) :
    (run body as s).2 = s ↔ StopsAt refused known as ∨ ∀ a ∈ as, known a := by
  rw [← run_eq_error_iff hgrow hinj hknown hrefused hI, ← run_eq_ok_iff hgrow hinj hknown hI]
  obtain ⟨x, t⟩ := run body as s
  cases x <;> simp

/-! ### Entering values under keys -/

variable {κ β : Type} [DecidableEq κ] [DecidableEq β]

/-- Enter a value under a key; another value that is there already is a conflict. -/
def enter (conflict : ε) (k : κ) (b : β) (m : HashMap κ β) : Except ε Unit × HashMap κ β :=
  match m.lookup k with
  | some existing => if existing ≠ b then (.error conflict, m) else (.ok (), m)
  | none => (.ok (), m.insert k b)

/-- The entries of a map. -/
def graph (m : HashMap κ β) : Set (κ × β) := {p | m.lookup p.1 = some p.2}

variable {conflict : ε} {k : κ} {b : β} {m m' : HashMap κ β}

omit [DecidableEq β] in
@[simp] theorem mem_graph {p : κ × β} : p ∈ graph m ↔ m.lookup p.1 = some p.2 := Iff.rfl

omit [DecidableEq β] in
/-- A map is known by its entries. -/
theorem graph_injective (h : graph m = graph m') : m = m' := by
  refine Finmap.ext_lookup fun k => ?_
  ext b
  exact Set.ext_iff.mp h (k, b)

omit [DecidableEq β] in
/-- The entries of a map with a new key. -/
theorem graph_insert (h : m.lookup k = none) : graph (m.insert k b) = graph m ∪ {(k, b)} := by
  ext ⟨k', b'⟩
  simp only [mem_graph, LastWrite.lookup_insert, Set.mem_union, Set.mem_singleton_iff,
    Prod.mk.injEq]
  split
  next hk =>
    subst hk
    simp [h, eq_comm]
  next hk => simp [hk]

theorem enter_ok_iff : (∃ m', enter conflict k b m = (.ok (), m')) ↔
    ∀ b', m.lookup k = some b' → b' = b := by
  rw [enter]
  cases hk : m.lookup k with
  | none => simp
  | some b' =>
      by_cases hb : b' = b
      · simp [hb]
      · simp [hb]

/-- What entering a value adds. -/
theorem graph_enter (h : enter conflict k b m = (.ok (), m')) :
    graph m' = graph m ∪ {(k, b)} := by
  rw [enter] at h
  cases hk : m.lookup k with
  | none =>
      rw [hk] at h
      rw [← (Prod.mk.inj h).2, graph_insert hk]
  | some b' =>
      rw [hk] at h
      by_cases hb : b' = b
      · subst hb
        simp only [ne_eq, not_true_eq_false, if_false] at h
        rw [← (Prod.mk.inj h).2, Set.union_eq_self_of_subset_right]
        rintro _ rfl
        exact hk
      · simp [hb] at h

theorem graph_subset_enter : graph m ⊆ graph (enter conflict k b m).2 := by
  rw [enter]
  cases hk : m.lookup k with
  | none =>
      simp only [graph_insert hk]
      exact Set.subset_union_left
  | some b' => by_cases hb : b' = b <;> simp [hb]

/-- Entering changes nothing when the value is there. -/
theorem enter_eq_ok_iff : enter conflict k b m = (.ok (), m) ↔ m.lookup k = some b := by
  constructor
  · intro h
    exact mem_graph.mp ((graph_enter h).symm ▸ Set.mem_union_right _ rfl : (k, b) ∈ graph m)
  · intro h
    simp [enter, h]

/-- It fails when another value is there, and then changes nothing. -/
theorem enter_eq_error_iff :
    (∃ e, enter conflict k b m = (.error e, m)) ↔ ∃ b', m.lookup k = some b' ∧ b' ≠ b := by
  rw [enter]
  cases hk : m.lookup k with
  | none => simp
  | some b' => by_cases hb : b' = b <;> simp [hb]

end FailingLoop
