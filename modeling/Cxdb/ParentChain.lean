import Mathlib.Data.List.Basic
import Mathlib.Order.Basic

/-!
# Chains of Parent Pointers

Nodes stored under keys, each naming the key of its parent; one key, the root, is no node.
The history of a key is the list of nodes from it to the root. It exists when parents are
stored and some rank decreases along them, and it is what every walk up the pointers sees.

## Main results

* `Chain.unique`: a key has at most one history.
* `exists_chain`: every stored key has one, if parents are stored and ranks decrease.
* `Chain.mono`: storing more nodes does not change a history.
-/

namespace ParentChain

/-- Nodes by key, with parent pointers. -/
structure Forest (κ ν : Type) where
  get : κ → Option ν
  parent : ν → κ
  root : κ

variable {κ ν : Type}

/-- `Chain F k vs`: the nodes from `k` to the root are `vs`, nearest first. -/
inductive Chain (F : Forest κ ν) : κ → List ν → Prop
  | root : Chain F F.root []
  | node {k : κ} {v : ν} {vs : List ν} :
      k ≠ F.root → F.get k = some v → Chain F (F.parent v) vs → Chain F k (v :: vs)

/-- The root, or the key of a node. -/
def Known (F : Forest κ ν) (k : κ) : Prop := k = F.root ∨ (F.get k).isSome

/-- Parents are known, and a rank decreases from a node to its parent. -/
def Closed (F : Forest κ ν) (rank : κ → ℕ) : Prop :=
  ∀ k v, F.get k = some v →
    F.parent v = F.root ∨ ((F.get (F.parent v)).isSome ∧ rank (F.parent v) < rank k)

variable {F F' : Forest κ ν}

/-- Only the root has an empty history. -/
theorem Chain.eq_root {k : κ} (h : Chain F k []) : k = F.root := by
  generalize hvs : ([] : List ν) = vs at h
  cases h with
  | root => rfl
  | node _ _ _ => exact absurd hvs (by simp)

/-- A history starts with the node of its key and goes on with that of the parent. -/
theorem Chain.cons_inv {k : κ} {v : ν} {vs : List ν} (h : Chain F k (v :: vs)) :
    k ≠ F.root ∧ F.get k = some v ∧ Chain F (F.parent v) vs := by
  cases h with
  | node hne hget hrest => exact ⟨hne, hget, hrest⟩

/-- A key has one history. -/
theorem Chain.unique {k : κ} {vs ws : List ν} (h : Chain F k vs) (h' : Chain F k ws) :
    vs = ws := by
  induction h generalizing ws with
  | root =>
      cases h' with
      | root => rfl
      | node hne _ _ => exact absurd rfl hne
  | node hne hget _ ih =>
      cases h' with
      | root => exact absurd rfl hne
      | node _ hget' hrest =>
          obtain rfl := Option.some.inj (hget.symm.trans hget')
          rw [ih hrest]

/-- **Histories exist.** -/
theorem exists_chain {rank : κ → ℕ} (hF : Closed F rank) {k : κ} (hk : Known F k) :
    ∃ vs, Chain F k vs := by
  rcases Classical.em (k = F.root) with rfl | hroot
  · exact ⟨[], Chain.root⟩
  -- The induction is on the rank, which the next step up decreases.
  suffices h : ∀ n k, rank k < n → k ≠ F.root → (F.get k).isSome → ∃ vs, Chain F k vs from
    h _ k (Nat.lt_succ_self _) hroot (hk.resolve_left hroot)
  intro n
  induction n with
  | zero => intro k hlt; exact absurd hlt (Nat.not_lt_zero _)
  | succ n ih =>
      intro k hlt hne hsome
      obtain ⟨v, hv⟩ := Option.isSome_iff_exists.mp hsome
      rcases Classical.em (F.parent v = F.root) with hpar | hpar
      · exact ⟨[v], Chain.node hne hv (hpar ▸ Chain.root)⟩
      · obtain ⟨hstored, hrank⟩ := (hF k v hv).resolve_left hpar
        obtain ⟨vs, hvs⟩ := ih _ (by omega) hpar hstored
        exact ⟨v :: vs, Chain.node hne hv hvs⟩

/-- Every node of a history is stored. -/
theorem Chain.stored {k : κ} {vs : List ν} (h : Chain F k vs) {v : ν} (hv : v ∈ vs) :
    ∃ k', k' ≠ F.root ∧ F.get k' = some v := by
  induction h with
  | root => simp at hv
  | node hne hget _ ih =>
      rcases List.mem_cons.mp hv with rfl | hv
      · exact ⟨_, hne, hget⟩
      · exact ih hv

/-- Behind a node of a history comes the history of its parent. -/
theorem Chain.behind {k : κ} {as : List ν} {v : ν} {bs : List ν}
    (h : Chain F k (as ++ v :: bs)) :
    (∃ k', k' ≠ F.root ∧ F.get k' = some v) ∧ Chain F (F.parent v) bs := by
  refine ⟨h.stored (List.mem_append_right _ List.mem_cons_self), ?_⟩
  induction as generalizing k with
  | nil => exact h.cons_inv.2.2
  | cons a as ih => exact ih h.cons_inv.2.2

/-- What holds of a node whenever it holds of nothing but stored nodes along the way:
an induction principle for the nodes of a history. -/
theorem Chain.forall_mem {P : ν → Prop} {k : κ} {vs : List ν} (h : Chain F k vs)
    (hk : ∀ v, F.get k = some v → P v)
    (hstep : ∀ v, P v → ∀ p, F.get (F.parent v) = some p → P p) : ∀ v ∈ vs, P v := by
  induction h with
  | root => simp
  | node _ hget _ ih =>
      have hv := hk _ hget
      intro w hw
      rcases List.mem_cons.mp hw with rfl | hw
      · exact hv
      · exact ih (hstep _ hv) w hw

/-- **More nodes, same history.** -/
theorem Chain.mono (hget : ∀ k v, F.get k = some v → F'.get k = some v)
    (hparent : F'.parent = F.parent) (hroot : F'.root = F.root) {k : κ} {vs : List ν}
    (h : Chain F k vs) : Chain F' k vs := by
  induction h with
  | root => exact hroot ▸ Chain.root
  | node hne hv _ ih => exact Chain.node (hroot ▸ hne) (hget _ _ hv) (hparent ▸ ih)

end ParentChain
