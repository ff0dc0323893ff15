import Cxdb.PrecedenceParser
import Cxdb.TokenStreams

/-!
# Texts Joined by a Binary Operator

Texts that a lexer reads as operands, one behind the other with the looser binary operator
between them, are read as tokens of one expression.

## Main results

* `reads_intercalate`: the joined texts derive the tree that leans to the left.
-/

namespace Precedence

variable {σ τ α ε ε' : Type} (next : σ → Except ε (τ × σ)) (isEnd : τ → Prop)
  (text : σ → List Char) (L : Language τ α ε') (IsOperand : List τ → α → Prop) (sep : List Char)

/-- The text is read as the operand, perhaps behind a blank, wherever nothing or a blank
follows. -/
def ReadsAs (s : List Char) (e : α) : Prop :=
  ∀ l blank rest, blank = [] ∨ blank = [' '] → text l = blank ++ (s ++ rest) →
    (∀ c ∈ rest.head?, c = ' ') →
    ∃ ts l', TokenStreams.Reads next isEnd l ts l' ∧ text l' = rest ∧ IsOperand ts e

/-- What stands between the texts begins with a blank, is read as the operator, and leaves a blank
before the next text. -/
def ReadsSeparator : Prop :=
  (∃ cs, sep = ' ' :: cs) ∧ ∀ l rest, text l = sep ++ rest →
    ∃ t l', next l = .ok (t, l') ∧ ¬ isEnd t ∧ L.kind t = .or ∧ text l' = ' ' :: rest

variable {next isEnd text L IsOperand sep} {s : List Char} {ss : List (List Char)} {e : α}
  {es : List α} {l : σ}

/-- Every separator begins with a blank. -/
theorem head?_flatMap (hsep : ReadsSeparator next isEnd text L sep) :
    ∀ c ∈ (ss.flatMap (sep ++ ·)).head?, c = ' ' := by
  obtain ⟨cs, rfl⟩ := hsep.1
  cases ss with
  | nil => simp
  | cons => simp

/-- Texts behind what is derived already. -/
theorem reads_joined (hsep : ReadsSeparator next isEnd text L sep)
    (h : List.Forall₂ (ReadsAs next isEnd text IsOperand) ss es)
    (hl : text l = ss.flatMap (sep ++ ·)) {us : List τ} {left : α}
    (hleft : Derives L IsOperand .or us left) :
    ∃ ts l', TokenStreams.Reads next isEnd l ts l' ∧ text l' = [] ∧
      Derives L IsOperand .or (us ++ ts) (es.foldl L.mkOr left) := by
  induction h generalizing l us left with
  | nil => exact ⟨[], l, .nil l, hl, by rwa [List.append_nil]⟩
  | @cons s e ss es hs _ ih =>
      obtain ⟨t, l₁, hor, hend, hkind, hl₁⟩ := hsep.2 l (s ++ ss.flatMap (sep ++ ·))
        (by rw [hl, List.flatMap_cons, List.append_assoc])
      obtain ⟨ts, l₂, hts, hl₂, hoperand⟩ :=
        hs l₁ [' '] _ (Or.inr rfl) hl₁ (head?_flatMap hsep)
      have hright : Derives L IsOperand .and ts e := .andOne (.unaryOne (.operand hoperand))
      obtain ⟨vs, l₃, hvs, hl₃, hall⟩ := ih hl₂ (.orMore hleft hkind hright)
      refine ⟨t :: (ts ++ vs), l₃, .cons hor hend (hts.append hvs), hl₃, ?_⟩
      simpa using hall

theorem intercalate_eq (sep s : List Char) (ss : List (List Char)) :
    sep.intercalate (s :: ss) = s ++ ss.flatMap (sep ++ ·) := by
  induction ss generalizing s with
  | nil => simp
  | cons s' ss ih => simp [ih]

/-- **Texts with the separator between them.** -/
theorem reads_intercalate (hsep : ReadsSeparator next isEnd text L sep)
    (h : List.Forall₂ (ReadsAs next isEnd text IsOperand) ss es) (hne : ss ≠ [])
    (hl : text l = sep.intercalate ss) :
    ∃ ts l' e es', es = e :: es' ∧ TokenStreams.Reads next isEnd l ts l' ∧ text l' = [] ∧
      Derives L IsOperand .or ts (es'.foldl L.mkOr e) := by
  cases h with
  | nil => exact absurd rfl hne
  | @cons s e ss es hs h =>
      rw [intercalate_eq] at hl
      obtain ⟨us, l₁, hus, hl₁, hoperand⟩ := hs l [] _ (Or.inl rfl) hl (head?_flatMap hsep)
      have hleft : Derives L IsOperand .or us e :=
        .orOne (.andOne (.unaryOne (.operand hoperand)))
      obtain ⟨ts, l₂, hts, hl₂, hall⟩ := reads_joined hsep h hl₁ hleft
      exact ⟨us ++ ts, l₂, e, es, rfl, hus.append hts, hl₂, hall⟩

end Precedence
