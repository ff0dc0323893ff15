import Mathlib.Data.List.Basic

/-!
# Streams of Tokens

A lexer takes tokens off its input, one after the other, up to the one that stands for the end.
What it is, and what a token is, are left open; every token but the last makes the input smaller.

## Main results

* `run_eq_ok_iff`: the loop succeeds exactly if all tokens up to the end are read.
* `Reads.append`: tokens that are read one after the other.
* `Reads.run_ne_ok`: the loop fails at a token that cannot be read.
-/

namespace TokenStreams

variable {σ τ ε : Type} (next : σ → Except ε (τ × σ)) (isEnd : τ → Prop)

/-- The loop of a lexer. -/
def run [DecidablePred isEnd] : ℕ → σ → Except ε (List τ)
  | 0, _ => .ok []
  | fuel + 1, l =>
    match next l with
    | .error e => .error e
    | .ok (t, l') =>
      if isEnd t then .ok [t]
      else (run fuel l').map (t :: ·)

/-- Tokens before the end, read one after the other. -/
inductive Reads : σ → List τ → σ → Prop
  | nil (l : σ) : Reads l [] l
  | cons {l l' l'' : σ} {t : τ} {ts : List τ} : next l = .ok (t, l') → ¬ isEnd t →
      Reads l' ts l'' → Reads l (t :: ts) l''

variable {next isEnd} {l l' l'' : σ} {t : τ} {ts us : List τ}

theorem Reads.append (h : Reads next isEnd l ts l') (h' : Reads next isEnd l' us l'') :
    Reads next isEnd l (ts ++ us) l'' := by
  induction h with
  | nil => exact h'
  | cons hnext hend _ ih => exact .cons hnext hend (ih h')

theorem Reads.single (hnext : next l = .ok (t, l')) (hend : ¬ isEnd t) :
    Reads next isEnd l [t] l' :=
  .cons hnext hend (.nil l')

/-- No token before the end is the last one. -/
theorem Reads.not_isEnd (h : Reads next isEnd l ts l') : ∀ t ∈ ts, ¬ isEnd t := by
  induction h with
  | nil => simp
  | cons _ hend _ ih => exact List.forall_mem_cons.mpr ⟨hend, ih⟩

/-- A stream that goes on behind some tokens. -/
theorem Reads.of_append (h : Reads next isEnd l (ts ++ us) l'') :
    ∃ l', Reads next isEnd l ts l' ∧ Reads next isEnd l' us l'' := by
  induction ts generalizing l with
  | nil => exact ⟨l, .nil l, h⟩
  | cons t ts ih =>
      cases h with
      | cons hnext hend hrest =>
          obtain ⟨m, hts, hus⟩ := ih hrest
          exact ⟨m, .cons hnext hend hts, hus⟩

/-- What has been read is the beginning of all that is read. -/
theorem Reads.of_prefix {e : τ} {m m' : σ} (h : Reads next isEnd l ts l')
    (hall : Reads next isEnd l us m) (hlast : next m = .ok (e, m')) (he : isEnd e) :
    ∃ vs, us = ts ++ vs ∧ Reads next isEnd l' vs m := by
  induction h generalizing us with
  | nil => exact ⟨us, rfl, hall⟩
  | cons hnext hend _ ih =>
      cases hall with
      | nil =>
          rw [hnext] at hlast
          obtain ⟨rfl, -⟩ := Prod.mk.inj (Except.ok.inj hlast)
          exact absurd he hend
      | cons hnext' _ hrest =>
          rw [hnext] at hnext'
          obtain ⟨rfl, rfl⟩ := Prod.mk.inj (Except.ok.inj hnext')
          obtain ⟨vs, rfl, hvs⟩ := ih hrest
          exact ⟨vs, rfl, hvs⟩

/-- **All tokens up to the end.** -/
theorem run_eq_ok_iff [DecidablePred isEnd] {size : σ → ℕ}
    (hsize : ∀ {l l' : σ} {t : τ}, next l = .ok (t, l') → ¬ isEnd t → size l' < size l)
    {fuel : ℕ} (hfuel : size l < fuel) {tokens : List τ} :
    run next isEnd fuel l = .ok tokens ↔ ∃ ts e l' l'', tokens = ts ++ [e] ∧
      Reads next isEnd l ts l' ∧ next l' = .ok (e, l'') ∧ isEnd e := by
  induction fuel generalizing l tokens with
  | zero => omega
  | succ fuel ih =>
      rw [run]
      cases hnext : next l with
      | error err =>
          refine ⟨by rintro ⟨⟩, ?_⟩
          rintro ⟨ts, e, l', l'', -, hreads, hlast, -⟩
          cases hreads with
          | nil =>
              rw [hnext] at hlast
              cases hlast
          | cons hfirst =>
              rw [hnext] at hfirst
              cases hfirst
      | ok result =>
          obtain ⟨t, m⟩ := result
          dsimp only
          by_cases hend : isEnd t
          · rw [if_pos hend]
            constructor
            · intro h
              exact ⟨[], t, l, m, (Except.ok.inj h).symm, .nil l, hnext, hend⟩
            · rintro ⟨ts, e, l', l'', rfl, hreads, hlast, -⟩
              cases hreads with
              | nil =>
                  rw [hnext] at hlast
                  obtain ⟨rfl, -⟩ := Prod.mk.inj (Except.ok.inj hlast)
                  rfl
              | cons hfirst hne =>
                  rw [hnext] at hfirst
                  obtain ⟨rfl, -⟩ := Prod.mk.inj (Except.ok.inj hfirst)
                  exact absurd hend hne
          · rw [if_neg hend]
            have hlt := hsize hnext hend
            constructor
            · intro h
              cases hrun : run next isEnd fuel m with
              | error err =>
                  rw [hrun] at h
                  cases h
              | ok rest =>
                  rw [hrun] at h
                  obtain ⟨ts, e, l', l'', rfl, hreads, hlast, he⟩ := (ih (by omega)).mp hrun
                  exact ⟨t :: ts, e, l', l'', (Except.ok.inj h).symm, .cons hnext hend hreads,
                    hlast, he⟩
            · rintro ⟨ts, e, l', l'', rfl, hreads, hlast, he⟩
              cases hreads with
              | nil =>
                  rw [hnext] at hlast
                  obtain ⟨rfl, -⟩ := Prod.mk.inj (Except.ok.inj hlast)
                  exact absurd he hend
              | cons hfirst _ hrest =>
                  rw [hnext] at hfirst
                  obtain ⟨rfl, rfl⟩ := Prod.mk.inj (Except.ok.inj hfirst)
                  rw [(ih (by omega)).mpr ⟨_, e, l', l'', rfl, hrest, hlast, he⟩]
                  rfl

/-- A token that cannot be read. -/
theorem Reads.run_ne_ok [DecidablePred isEnd] {size : σ → ℕ}
    (hsize : ∀ {l l' : σ} {t : τ}, next l = .ok (t, l') → ¬ isEnd t → size l' < size l)
    (h : Reads next isEnd l ts l') {err : ε} (herr : next l' = .error err)
    {fuel : ℕ} (hfuel : size l < fuel) (tokens : List τ) : run next isEnd fuel l ≠ .ok tokens := by
  intro hrun
  obtain ⟨us, e, m, m', -, hreads, hlast, he⟩ := (run_eq_ok_iff hsize hfuel).mp hrun
  obtain ⟨vs, -, hvs⟩ := h.of_prefix hreads hlast he
  cases hvs with
  | nil =>
      rw [herr] at hlast
      cases hlast
  | cons hfirst =>
      rw [herr] at hfirst
      cases hfirst

end TokenStreams
