import Mathlib.Data.List.Basic

/-!
# Recursive Descent over Two Binary Operators

A parser for expressions of operands, two left-associative binary operators of which one
binds tighter, a prefix operator that takes one primary, and parentheses:

```
or      = and { OR and }
and     = unary { AND unary }
unary   = [ NOT ] primary
primary = operand | "(" or ")"
```

The operands, the tokens and the trees are parameters (`Language`). The parser is fuelled;
the fuel that `parse` gives it is enough for every input the grammar derives.

## Main results

* `sound`: what the parser accepts is derivable, with the same tree.
* `completes`: what is derivable is accepted.
* `parse_eq_ok_iff`: the parser accepts exactly the grammar.
-/

namespace Precedence

/-- What the parser sees of a token. -/
inductive Kind where
  | or
  | and
  | not
  | lparen
  | rparen
  | other
  deriving DecidableEq

/-- The tokens, trees and errors of a language. -/
structure Language (τ α ε : Type) where
  kind : τ → Kind
  mkOr : α → α → α
  mkAnd : α → α → α
  mkNot : α → α
  /-- Read an operand from the front of the tokens. -/
  operand : List τ → Except ε (α × List τ)
  /-- The error where a closing parenthesis is missing. -/
  expectedRParen : List τ → ε

variable {τ α ε : Type} (L : Language τ α ε)

namespace Language

/-- The kind of the current token, if there is one. -/
def current (ts : List τ) : Kind :=
  match ts with
  | [] => .other
  | t :: _ => L.kind t

mutual

def parseOrExpr : ℕ → List τ → Except ε (α × List τ)
  | 0, ts => .error (L.expectedRParen ts)
  | fuel + 1, ts => do
    let (left, ts) ← parseAndExpr fuel ts
    parseOrLoop fuel left ts

/-- The loop of `parseOrExpr`. -/
def parseOrLoop : ℕ → α → List τ → Except ε (α × List τ)
  | 0, _, ts => .error (L.expectedRParen ts)
  | fuel + 1, left, ts =>
    if L.current ts = .or then do
      let (right, ts) ← parseAndExpr fuel ts.tail
      parseOrLoop fuel (L.mkOr left right) ts
    else .ok (left, ts)

def parseAndExpr : ℕ → List τ → Except ε (α × List τ)
  | 0, ts => .error (L.expectedRParen ts)
  | fuel + 1, ts => do
    let (left, ts) ← parseUnaryExpr fuel ts
    parseAndLoop fuel left ts

/-- The loop of `parseAndExpr`. -/
def parseAndLoop : ℕ → α → List τ → Except ε (α × List τ)
  | 0, _, ts => .error (L.expectedRParen ts)
  | fuel + 1, left, ts =>
    if L.current ts = .and then do
      let (right, ts) ← parseUnaryExpr fuel ts.tail
      parseAndLoop fuel (L.mkAnd left right) ts
    else .ok (left, ts)

def parseUnaryExpr : ℕ → List τ → Except ε (α × List τ)
  | 0, ts => .error (L.expectedRParen ts)
  | fuel + 1, ts =>
    if L.current ts = .not then do
      let (inner, ts) ← parsePrimary fuel ts.tail
      return (L.mkNot inner, ts)
    else parsePrimary fuel ts

def parsePrimary : ℕ → List τ → Except ε (α × List τ)
  | 0, ts => .error (L.expectedRParen ts)
  | fuel + 1, ts =>
    if L.current ts = .lparen then do
      let (e, ts) ← parseOrExpr fuel ts.tail
      if L.current ts = .rparen then return (e, ts.tail)
      else .error (L.expectedRParen ts)
    else L.operand ts

end

/-- Fuel for every derivation of as many tokens. -/
def fuelFor (ts : List τ) : ℕ := 6 * ts.length + 6

/-- `parse_or_expr` from the front of the tokens. -/
def parse (ts : List τ) : Except ε (α × List τ) := L.parseOrExpr (fuelFor ts) ts

end Language

/-! ### The grammar -/

/-- The nonterminals. -/
inductive Level where
  | or
  | and
  | unary
  | primary

/-- The tokens derive the tree. -/
inductive Derives (IsOperand : List τ → α → Prop) : Level → List τ → α → Prop where
  | orOne {ts : List τ} {e : α} : Derives IsOperand .and ts e → Derives IsOperand .or ts e
  | orMore {ts us : List τ} {t : τ} {l r : α} : Derives IsOperand .or ts l →
      L.kind t = .or → Derives IsOperand .and us r →
      Derives IsOperand .or (ts ++ t :: us) (L.mkOr l r)
  | andOne {ts : List τ} {e : α} : Derives IsOperand .unary ts e → Derives IsOperand .and ts e
  | andMore {ts us : List τ} {t : τ} {l r : α} : Derives IsOperand .and ts l →
      L.kind t = .and → Derives IsOperand .unary us r →
      Derives IsOperand .and (ts ++ t :: us) (L.mkAnd l r)
  | unaryOne {ts : List τ} {e : α} : Derives IsOperand .primary ts e →
      Derives IsOperand .unary ts e
  | unaryNot {ts : List τ} {t : τ} {e : α} : L.kind t = .not → Derives IsOperand .primary ts e →
      Derives IsOperand .unary (t :: ts) (L.mkNot e)
  | operand {ts : List τ} {e : α} : IsOperand ts e → Derives IsOperand .primary ts e
  | paren {ts : List τ} {o c : τ} {e : α} : L.kind o = .lparen → Derives IsOperand .or ts e →
      L.kind c = .rparen → Derives IsOperand .primary (o :: ts ++ [c]) e

/-- How tightly a nonterminal binds. -/
def Level.rank : Level → ℕ
  | .or => 0
  | .and => 1
  | .unary => 2
  | .primary => 3

/-- The operand parser reads the operands of the grammar and nothing else. -/
structure ReadsOperands (IsOperand : List τ → α → Prop) : Prop where
  sound : ∀ {ts e rest}, L.operand ts = .ok (e, rest) →
    ∃ us, ts = us ++ rest ∧ IsOperand us e
  complete : ∀ {us e}, IsOperand us e → ∀ rest, L.operand (us ++ rest) = .ok (e, rest)
  starts : ∀ {us e}, IsOperand us e → ∃ t us', us = t :: us' ∧ L.kind t = .other

variable {L} {IsOperand : List τ → α → Prop}

/-- What binds tighter is also derived where something looser may stand. -/
theorem Derives.loosen {level level' : Level} {ts : List τ} {e : α}
    (h : Derives L IsOperand level ts e) (hrank : level'.rank ≤ level.rank) :
    Derives L IsOperand level' ts e := by
  have hunary : level = .primary → Derives L IsOperand .unary ts e := fun heq =>
    .unaryOne (heq ▸ h)
  have hand : 2 ≤ level.rank → Derives L IsOperand .and ts e := by
    intro h2
    cases level with
    | or | and => simp [Level.rank] at h2
    | unary => exact .andOne h
    | primary => exact .andOne (hunary rfl)
  have hor : Derives L IsOperand .or ts e := by
    cases level with
    | or => exact h
    | and => exact .orOne h
    | unary | primary => exact .orOne (hand (by simp [Level.rank]))
  cases level' with
  | or => exact hor
  | and =>
      cases level with
      | or => simp [Level.rank] at hrank
      | and => exact h
      | unary | primary => exact hand (by simp [Level.rank])
  | unary =>
      cases level with
      | or | and => simp [Level.rank] at hrank
      | unary => exact h
      | primary => exact hunary rfl
  | primary =>
      cases level with
      | or | and | unary => simp [Level.rank] at hrank
      | primary => exact h

theorem bind_eq_ok {β γ : Type} {x : Except ε β} {f : β → Except ε γ} {c : γ} :
    (x >>= f) = .ok c ↔ ∃ b, x = .ok b ∧ f b = .ok c := by
  cases x <;> simp [bind, Except.bind]

@[simp] theorem ok_bind {β γ : Type} (b : β) (f : β → Except ε γ) :
    (Except.ok b >>= f) = f b := rfl

theorem eq_cons_of_current {ts : List τ} {k : Kind} (h : L.current ts = k) (hk : k ≠ .other) :
    ∃ t, ts = t :: ts.tail ∧ L.kind t = k := by
  cases ts with
  | nil => exact absurd h.symm hk
  | cons t ts => exact ⟨t, rfl, h⟩

/-! ### Soundness -/

/-- What a parser of a nonterminal accepts is derivable. -/
def Sound (L : Language τ α ε) (IsOperand : List τ → α → Prop) (level : Level)
    (parser : List τ → Except ε (α × List τ)) : Prop :=
  ∀ ts e rest, parser ts = .ok (e, rest) →
    ∃ us, ts = us ++ rest ∧ Derives L IsOperand level us e

/-- What a loop adds to a derivable left side is derivable. -/
def SoundLoop (L : Language τ α ε) (IsOperand : List τ → α → Prop) (level : Level)
    (loop : α → List τ → Except ε (α × List τ)) : Prop :=
  ∀ left ts e rest us, loop left ts = .ok (e, rest) → Derives L IsOperand level us left →
    ∃ vs, ts = vs ++ rest ∧ Derives L IsOperand level (us ++ vs) e

theorem sound_orLoop {fuel : ℕ} (hand : Sound L IsOperand .and (L.parseAndExpr fuel))
    (hloop : SoundLoop L IsOperand .or (L.parseOrLoop fuel)) :
    SoundLoop L IsOperand .or (L.parseOrLoop (fuel + 1)) := by
  intro left ts e rest us h hleft
  rw [Language.parseOrLoop] at h
  split at h
  · next hcur =>
    obtain ⟨t, hts, hkind⟩ := eq_cons_of_current hcur (by decide)
    obtain ⟨⟨right, ts'⟩, hright, h⟩ := bind_eq_ok.mp h
    obtain ⟨vs, hvs, hr⟩ := hand _ _ _ hright
    obtain ⟨ws, rfl, hws⟩ := hloop _ _ _ _ _ h (.orMore hleft hkind hr)
    refine ⟨t :: vs ++ ws, ?_, ?_⟩
    · rw [hts, hvs]
      simp
    · simpa using hws
  · cases h
    exact ⟨[], rfl, by simpa using hleft⟩

theorem sound_andLoop {fuel : ℕ} (hunary : Sound L IsOperand .unary (L.parseUnaryExpr fuel))
    (hloop : SoundLoop L IsOperand .and (L.parseAndLoop fuel)) :
    SoundLoop L IsOperand .and (L.parseAndLoop (fuel + 1)) := by
  intro left ts e rest us h hleft
  rw [Language.parseAndLoop] at h
  split at h
  · next hcur =>
    obtain ⟨t, hts, hkind⟩ := eq_cons_of_current hcur (by decide)
    obtain ⟨⟨right, ts'⟩, hright, h⟩ := bind_eq_ok.mp h
    obtain ⟨vs, hvs, hr⟩ := hunary _ _ _ hright
    obtain ⟨ws, rfl, hws⟩ := hloop _ _ _ _ _ h (.andMore hleft hkind hr)
    refine ⟨t :: vs ++ ws, ?_, ?_⟩
    · rw [hts, hvs]
      simp
    · simpa using hws
  · cases h
    exact ⟨[], rfl, by simpa using hleft⟩

theorem sound_orExpr {fuel : ℕ} (hand : Sound L IsOperand .and (L.parseAndExpr fuel))
    (hloop : SoundLoop L IsOperand .or (L.parseOrLoop fuel)) :
    Sound L IsOperand .or (L.parseOrExpr (fuel + 1)) := by
  intro ts e rest h
  rw [Language.parseOrExpr] at h
  obtain ⟨⟨left, ts'⟩, hleft, hrun⟩ := bind_eq_ok.mp h
  obtain ⟨us, hus, hl⟩ := hand _ _ _ hleft
  obtain ⟨vs, rfl, hvs⟩ := hloop _ _ _ _ _ hrun (.orOne hl)
  exact ⟨us ++ vs, by rw [hus, List.append_assoc], hvs⟩

theorem sound_andExpr {fuel : ℕ} (hunary : Sound L IsOperand .unary (L.parseUnaryExpr fuel))
    (hloop : SoundLoop L IsOperand .and (L.parseAndLoop fuel)) :
    Sound L IsOperand .and (L.parseAndExpr (fuel + 1)) := by
  intro ts e rest h
  rw [Language.parseAndExpr] at h
  obtain ⟨⟨left, ts'⟩, hleft, hrun⟩ := bind_eq_ok.mp h
  obtain ⟨us, hus, hl⟩ := hunary _ _ _ hleft
  obtain ⟨vs, rfl, hvs⟩ := hloop _ _ _ _ _ hrun (.andOne hl)
  exact ⟨us ++ vs, by rw [hus, List.append_assoc], hvs⟩

theorem sound_unaryExpr {fuel : ℕ} (hprim : Sound L IsOperand .primary (L.parsePrimary fuel)) :
    Sound L IsOperand .unary (L.parseUnaryExpr (fuel + 1)) := by
  intro ts e rest h
  rw [Language.parseUnaryExpr] at h
  split at h
  · next hcur =>
    obtain ⟨t, hts, hkind⟩ := eq_cons_of_current hcur (by decide)
    obtain ⟨⟨inner, ts'⟩, hinner, h⟩ := bind_eq_ok.mp h
    cases h
    obtain ⟨us, hus, hi⟩ := hprim _ _ _ hinner
    exact ⟨t :: us, by rw [hts, hus]; rfl, .unaryNot hkind hi⟩
  · obtain ⟨us, rfl, hi⟩ := hprim _ _ _ h
    exact ⟨us, rfl, .unaryOne hi⟩

theorem sound_primary (hop : ReadsOperands L IsOperand) {fuel : ℕ}
    (hor : Sound L IsOperand .or (L.parseOrExpr fuel)) :
    Sound L IsOperand .primary (L.parsePrimary (fuel + 1)) := by
  intro ts e rest h
  rw [Language.parsePrimary] at h
  split at h
  · next hcur =>
    obtain ⟨o, hts, hopen⟩ := eq_cons_of_current hcur (by decide)
    obtain ⟨⟨inner, ts'⟩, hinner, hrun⟩ := bind_eq_ok.mp h
    obtain ⟨us, hus, hi⟩ := hor _ _ _ hinner
    dsimp only at hrun
    split at hrun
    · next hcur' =>
      obtain ⟨c, hts', hclose⟩ := eq_cons_of_current hcur' (by decide)
      cases hrun
      refine ⟨o :: us ++ [c], ?_, .paren hopen hi hclose⟩
      calc ts = o :: (us ++ ts') := by rw [hts, hus]
        _ = o :: (us ++ c :: ts'.tail) := by rw [← hts']
        _ = o :: us ++ [c] ++ ts'.tail := by simp
    · cases hrun
  · obtain ⟨us, rfl, hi⟩ := hop.sound h
    exact ⟨us, rfl, .operand hi⟩

/-- **Soundness.** With any fuel, all of the parsers accept only what is derivable. -/
theorem sound (hop : ReadsOperands L IsOperand) (fuel : ℕ) :
    Sound L IsOperand .or (L.parseOrExpr fuel) ∧ SoundLoop L IsOperand .or (L.parseOrLoop fuel) ∧
      Sound L IsOperand .and (L.parseAndExpr fuel) ∧
      SoundLoop L IsOperand .and (L.parseAndLoop fuel) ∧
      Sound L IsOperand .unary (L.parseUnaryExpr fuel) ∧
      Sound L IsOperand .primary (L.parsePrimary fuel) := by
  induction fuel with
  | zero =>
      refine ⟨?_, ?_, ?_, ?_, ?_, ?_⟩
      case refine_2 | refine_4 => exact fun _ _ _ _ _ h _ => nomatch h
      all_goals exact fun _ _ _ h => nomatch h
  | succ fuel ih =>
      obtain ⟨hor, horLoop, hand, handLoop, hunary, hprim⟩ := ih
      exact ⟨sound_orExpr hand horLoop, sound_orLoop hand horLoop, sound_andExpr hunary handLoop,
        sound_andLoop hunary handLoop, sound_unaryExpr hprim, sound_primary hop hor⟩

/-! ### Completeness -/

/-- Nothing is derived from no tokens. -/
theorem Derives.ne_nil (hop : ReadsOperands L IsOperand) {level : Level} {ts : List τ} {e : α}
    (h : Derives L IsOperand level ts e) : ts ≠ [] := by
  induction h with
  | orOne _ ih | andOne _ ih | unaryOne _ ih => exact ih
  | orMore | andMore | unaryNot | paren => simp
  | operand h =>
      obtain ⟨t, us, rfl, -⟩ := hop.starts h
      simp

theorem current_cons {t : τ} {ts : List τ} {k : Kind} (h : L.kind t = k) :
    L.current (t :: ts) = k := h

/-- A derivation of a primary starts with an operand or a parenthesis. -/
theorem Derives.current_primary {ts : List τ} {e : α} (hop : ReadsOperands L IsOperand)
    (h : Derives L IsOperand .primary ts e) (rest : List τ) :
    L.current (ts ++ rest) = .other ∨ L.current (ts ++ rest) = .lparen := by
  cases h with
  | operand h =>
      obtain ⟨t, us, rfl, hk⟩ := hop.starts h
      exact Or.inl hk
  | paren ho => exact Or.inr ho

/-- What each parser does on a derivation that other tokens follow. The loops of the binary
operators are left where the derivation ends, with the fuel that is not yet used. -/
def Completes (L : Language τ α ε) (ts : List τ) (e : α) : Level → Prop
  | .or => ∀ fuel rest, 6 * ts.length + 5 ≤ fuel → L.current rest ≠ .and →
      ∃ fuel', fuel ≤ fuel' + ts.length + 1 ∧
        L.parseOrExpr fuel (ts ++ rest) = L.parseOrLoop fuel' e rest
  | .and => ∀ fuel rest, 6 * ts.length + 3 ≤ fuel →
      ∃ fuel', fuel ≤ fuel' + ts.length + 1 ∧
        L.parseAndExpr fuel (ts ++ rest) = L.parseAndLoop fuel' e rest
  | .unary => ∀ fuel rest, 6 * ts.length + 1 ≤ fuel →
      L.parseUnaryExpr fuel (ts ++ rest) = .ok (e, rest)
  | .primary => ∀ fuel rest, 6 * ts.length ≤ fuel →
      L.parsePrimary fuel (ts ++ rest) = .ok (e, rest)

/-- The loop of `or` ends where no `or` follows. -/
theorem parseOrLoop_done {fuel : ℕ} {e : α} {rest : List τ} (hfuel : 0 < fuel)
    (hrest : L.current rest ≠ .or) : L.parseOrLoop fuel e rest = .ok (e, rest) := by
  obtain ⟨fuel, rfl⟩ := Nat.exists_eq_add_of_le' hfuel
  rw [Language.parseOrLoop, if_neg hrest]

/-- The loop of `and` ends where no `and` follows. -/
theorem parseAndLoop_done {fuel : ℕ} {e : α} {rest : List τ} (hfuel : 0 < fuel)
    (hrest : L.current rest ≠ .and) : L.parseAndLoop fuel e rest = .ok (e, rest) := by
  obtain ⟨fuel, rfl⟩ := Nat.exists_eq_add_of_le' hfuel
  rw [Language.parseAndLoop, if_neg hrest]

/-- An expression that no further operator follows is read whole. -/
theorem Completes.parseOrExpr {ts rest : List τ} {e : α} (h : Completes L ts e .or) {fuel : ℕ}
    (hfuel : 6 * ts.length + 5 ≤ fuel) (hand : L.current rest ≠ .and)
    (hor : L.current rest ≠ .or) : L.parseOrExpr fuel (ts ++ rest) = .ok (e, rest) := by
  obtain ⟨fuel', hfuel', heq⟩ := h fuel rest hfuel hand
  rw [heq, parseOrLoop_done (by omega) hor]

/-- **Completeness.** Every parser reads what its nonterminal derives. -/
theorem completes (hop : ReadsOperands L IsOperand) {level : Level} {ts : List τ} {e : α}
    (h : Derives L IsOperand level ts e) : Completes L ts e level := by
  induction h with
  | orOne _ ih =>
      intro fuel rest hfuel hand
      obtain ⟨fuel, rfl⟩ := Nat.exists_eq_add_of_le' (show 1 ≤ fuel by omega)
      obtain ⟨fuel', hfuel', heq⟩ := ih fuel rest (by omega)
      refine ⟨fuel, by omega, ?_⟩
      rw [Language.parseOrExpr, heq, parseAndLoop_done (by omega) hand]
      rfl
  | @orMore ts us t l r _ hkind _ ihl ihr =>
      intro fuel rest hfuel hand
      rw [List.length_append, List.length_cons] at hfuel
      obtain ⟨fuel₁, hfuel₁, heq₁⟩ := ihl fuel (t :: us ++ rest) (by omega)
        (by rw [List.cons_append, current_cons hkind]; decide)
      obtain ⟨fuel₁, rfl⟩ := Nat.exists_eq_add_of_le' (show 1 ≤ fuel₁ by omega)
      obtain ⟨fuel₂, hfuel₂, heq₂⟩ := ihr fuel₁ rest (by omega)
      refine ⟨fuel₁, by simp; omega, ?_⟩
      have hcur : L.current (t :: us ++ rest) = .or := hkind
      rw [List.append_assoc, heq₁, Language.parseOrLoop, if_pos hcur, List.cons_append,
        List.tail_cons, heq₂, parseAndLoop_done (by omega) hand]
      rfl
  | andOne _ ih =>
      intro fuel rest hfuel
      obtain ⟨fuel, rfl⟩ := Nat.exists_eq_add_of_le' (show 1 ≤ fuel by omega)
      refine ⟨fuel, by omega, ?_⟩
      rw [Language.parseAndExpr, ih fuel rest (by omega)]
      rfl
  | @andMore ts us t l r _ hkind _ ihl ihr =>
      intro fuel rest hfuel
      rw [List.length_append, List.length_cons] at hfuel
      obtain ⟨fuel₁, hfuel₁, heq₁⟩ := ihl fuel (t :: us ++ rest) (by omega)
      obtain ⟨fuel₁, rfl⟩ := Nat.exists_eq_add_of_le' (show 1 ≤ fuel₁ by omega)
      refine ⟨fuel₁, by simp; omega, ?_⟩
      have hcur : L.current (t :: us ++ rest) = .and := hkind
      rw [List.append_assoc, heq₁, Language.parseAndLoop, if_pos hcur, List.cons_append,
        List.tail_cons, ihr fuel₁ rest (by omega)]
      rfl
  | @unaryOne ts e hprim ih =>
      intro fuel rest hfuel
      obtain ⟨fuel, rfl⟩ := Nat.exists_eq_add_of_le' (show 1 ≤ fuel by omega)
      have hnot : L.current (ts ++ rest) ≠ .not := by
        rcases hprim.current_primary hop rest with h | h <;> rw [h] <;> decide
      rw [Language.parseUnaryExpr, if_neg hnot, ih fuel rest (by omega)]
  | unaryNot hkind _ ih =>
      intro fuel rest hfuel
      rw [List.length_cons] at hfuel
      obtain ⟨fuel, rfl⟩ := Nat.exists_eq_add_of_le' (show 1 ≤ fuel by omega)
      rw [Language.parseUnaryExpr, List.cons_append, if_pos (current_cons hkind),
        List.tail_cons, ih fuel rest (by omega)]
      rfl
  | @operand ts e h =>
      intro fuel rest hfuel
      obtain ⟨t, us, rfl, hk⟩ := hop.starts h
      rw [List.length_cons] at hfuel
      obtain ⟨fuel, rfl⟩ := Nat.exists_eq_add_of_le' (show 1 ≤ fuel by omega)
      have hcur : L.current (t :: us ++ rest) ≠ .lparen := by
        rw [List.cons_append, current_cons hk]
        decide
      rw [Language.parsePrimary, if_neg hcur, hop.complete h]
  | @paren ts o c e ho _ hc ih =>
      intro fuel rest hfuel
      simp only [List.cons_append, List.length_cons, List.length_append, List.length_nil]
        at hfuel
      obtain ⟨fuel, rfl⟩ := Nat.exists_eq_add_of_le' (show 1 ≤ fuel by omega)
      have hinner : L.parseOrExpr fuel (ts ++ c :: rest) = .ok (e, c :: rest) :=
        Completes.parseOrExpr ih (by omega)
          (by rw [current_cons hc]; decide) (by rw [current_cons hc]; decide)
      have hsplit : o :: ts ++ [c] ++ rest = o :: (ts ++ c :: rest) := by simp
      rw [hsplit, Language.parsePrimary, if_pos (current_cons ho), List.tail_cons, hinner]
      change (if L.current (c :: rest) = .rparen then _ else _) = _
      rw [if_pos (current_cons hc)]
      rfl

/-- The parser accepts exactly the grammar: it reads a derivation up to tokens that no
operator starts with. -/
theorem parse_eq_ok_iff (hop : ReadsOperands L IsOperand) {ts rest : List τ} {e : α}
    (hrest : L.current rest = .other) :
    L.parse (ts ++ rest) = .ok (e, rest) ↔ Derives L IsOperand .or ts e := by
  constructor
  · intro h
    obtain ⟨us, hus, hd⟩ := (sound hop _).1 _ _ _ h
    rwa [List.append_cancel_right hus]
  · intro h
    refine (completes hop h).parseOrExpr ?_ (by rw [hrest]; decide) (by rw [hrest]; decide)
    simp only [Language.fuelFor, List.length_append]
    omega

end Precedence
