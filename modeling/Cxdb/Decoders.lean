import Cxdb.ByteFormat

/-!
# Decoders

A decoder reads a value off the front of a byte string, or fails with an error; decoders are
run one after another. Takers become decoders when they are given the error of a string that
is too short.

## Main results

* `run_bind`, `bind_eq_ok`: what a sequence of decoders reads, forwards and backwards.
* `repeated_ok`: reading one record after another reads what was written one after another.
* `repeated_cost`: the bytes that were read cover what their records cost.
-/

namespace Decoding

open ByteFormat

/-- Reads an `α` off the front. -/
abbrev Decoder (ε α : Type) := StateT Bytes (Except ε) α

variable {ε α β : Type}

/-- The decoder of a taker; `e` is the error of a string that is too short. -/
def taking (e : Bytes → ε) (take : Bytes → Option (α × Bytes)) : Decoder ε α := fun bs =>
  match take bs with
  | some r => .ok r
  | none => .error (e bs)

/-- The decoder that reads nothing. -/
def given (x : Except ε α) : Decoder ε α := fun bs => x.map fun a => (a, bs)

/-- `n` records, one after another. -/
def repeated (x : Decoder ε α) : ℕ → Decoder ε (List α)
  | 0 => pure []
  | n + 1 => do
      let a ← x
      let as ← repeated x n
      return a :: as

theorem taking_of_some {e : Bytes → ε} {take : Bytes → Option (α × Bytes)} {bs : Bytes}
    {r : α × Bytes} (h : take bs = some r) : taking e take bs = .ok r := by
  rw [taking, h]

theorem taking_eq_ok {e : Bytes → ε} {take : Bytes → Option (α × Bytes)} {bs : Bytes}
    {r : α × Bytes} : taking e take bs = .ok r ↔ take bs = some r := by
  rw [taking]
  cases take bs <;> simp

theorem given_eq_ok {x : Except ε α} {bs : Bytes} {r : α × Bytes} :
    given x bs = .ok r ↔ x = .ok r.1 ∧ r.2 = bs := by
  cases x with
  | error e => simp [given, Except.map]
  | ok a =>
      rw [given, Except.map, Except.ok.injEq, Except.ok.injEq, Prod.ext_iff]
      exact and_congr_right fun _ => eq_comm

/-- Read one value, and then the rest. -/
theorem run_bind {x : Decoder ε α} {a : α} {bs rest : Bytes} (h : x bs = .ok (a, rest))
    (f : α → Decoder ε β) : (x >>= f) bs = f a rest := by
  simp only [bind, StateT.bind, h, Except.bind]

/-- A sequence that succeeds has read its first value. -/
theorem bind_eq_ok {x : Decoder ε α} {f : α → Decoder ε β} {bs : Bytes} {r : β × Bytes} :
    (x >>= f) bs = .ok r ↔ ∃ a rest, x bs = .ok (a, rest) ∧ f a rest = .ok r := by
  simp only [bind, StateT.bind, Except.bind]
  cases hx : x bs with
  | error e => simp
  | ok p =>
      obtain ⟨a, rest⟩ := p
      simp

/-- A decoder fails in these ways only. -/
def FailsOnly (P : ε → Prop) (x : Decoder ε α) : Prop :=
  ∀ bs e, x bs = .error e → P e

/-- A sequence fails as its parts do. -/
theorem FailsOnly.bind {P : ε → Prop} {x : Decoder ε α} {f : α → Decoder ε β}
    (hx : FailsOnly P x) (hf : ∀ a, FailsOnly P (f a)) : FailsOnly P (x >>= f) := by
  intro bs e h
  simp only [Bind.bind, StateT.bind, Except.bind] at h
  cases hrun : x bs with
  | error e' =>
      rw [hrun] at h
      obtain rfl := Except.error.inj h
      exact hx bs e' hrun
  | ok r =>
      rw [hrun] at h
      exact hf r.1 r.2 e h

theorem pure_eq_ok {a : α} {bs : Bytes} {r : α × Bytes} :
    (pure a : Decoder ε α) bs = .ok r ↔ r = (a, bs) := by
  have happly : (pure a : Decoder ε α) bs = .ok (a, bs) := rfl
  rw [happly, Except.ok.injEq, eq_comm]

/-- **Records one after another.** What follows a record is what the later ones and the bytes
behind them make. -/
theorem repeated_ok {x : Decoder ε α} {γ : Type} {enc : γ → Bytes} {value : γ → α}
    {items : List γ} {rest : Bytes}
    (h : ∀ pre item post, items = pre ++ item :: post →
      x (enc item ++ (post.flatMap enc ++ rest)) =
        .ok (value item, post.flatMap enc ++ rest)) :
    repeated x items.length (items.flatMap enc ++ rest) = .ok (items.map value, rest) := by
  induction items with
  | nil => rfl
  | cons item items ih =>
      have hrest := ih fun pre item' post hsplit => h (item :: pre) item' post (by
        rw [hsplit, List.cons_append])
      rw [List.length_cons, repeated, List.flatMap_cons, List.append_assoc,
        run_bind (h [] item items rfl), run_bind hrest]
      rfl

/-- **What the records cost.** A measure of lists of records that the bytes cover record by
record is covered by the bytes of all of them. -/
theorem repeated_cost {x : Decoder ε α} {cost : List α → ℕ} (hnil : cost [] = 0)
    (hcons : ∀ bs a rest as, x bs = .ok (a, rest) → cost as ≤ rest.length →
      cost (a :: as) ≤ bs.length)
    {n : ℕ} {bs : Bytes} {as : List α} {rest : Bytes} (h : repeated x n bs = .ok (as, rest)) :
    cost as ≤ bs.length := by
  induction n generalizing bs as rest with
  | zero =>
      obtain ⟨rfl, -⟩ := Prod.mk.inj (pure_eq_ok.mp h)
      exact hnil ▸ Nat.zero_le _
  | succ n ih =>
      rw [repeated] at h
      obtain ⟨a, bs₁, ha, h⟩ := bind_eq_ok.mp h
      obtain ⟨as', bs₂, has, h⟩ := bind_eq_ok.mp h
      obtain ⟨rfl, -⟩ := Prod.mk.inj (pure_eq_ok.mp h)
      exact hcons bs a bs₁ as' ha (ih has)

/-- What holds of every record that can be read holds of all that were read. -/
theorem repeated_forall {x : Decoder ε α} {p : α → Prop}
    (hp : ∀ bs a rest, x bs = .ok (a, rest) → p a)
    {n : ℕ} {bs : Bytes} {as : List α} {rest : Bytes} (h : repeated x n bs = .ok (as, rest)) :
    ∀ a ∈ as, p a := by
  induction n generalizing bs as rest with
  | zero =>
      obtain ⟨rfl, -⟩ := Prod.mk.inj (pure_eq_ok.mp h)
      exact fun a ha => absurd ha List.not_mem_nil
  | succ n ih =>
      rw [repeated] at h
      obtain ⟨a, bs₁, ha, h⟩ := bind_eq_ok.mp h
      obtain ⟨as', bs₂, has, h⟩ := bind_eq_ok.mp h
      obtain ⟨rfl, -⟩ := Prod.mk.inj (pure_eq_ok.mp h)
      rintro b (- | ⟨_, hb⟩)
      · exact hp bs a bs₁ ha
      · exact ih has b hb

end Decoding
