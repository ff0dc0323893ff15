import Cxdb.RecordLog
import Cxdb.SizeMirror

/-!
# Mirrors of Files That Are Appended To

What a mirror that compares sizes has of a file, when nothing is done to the file but appending:
at every moment the copy begins the file, whatever the steps of the mirror are and whatever
happens to other files. A copy of a file of records is then a file of records, the first of them,
with a part of the next one behind them.

## Main results

* `Layout.of_isPrefix`: the beginning of a file of whole records.
* `Copies.Begins.act`, `Copies.Begins.grow`: copies keep beginning a file.
* `Copies.Begins.doRound`: after a round that nothing disturbs the copy is the file.
-/

open ByteFormat

namespace RecordLog.Framing

variable {ε α : Type} {F : Framing ε α}

/-- **The beginning of a file** of whole records is laid out, with the first of the records. -/
theorem Layout.of_isPrefix {file file' : Bytes} {as : List α} (h : F.Layout file as [])
    (hp : file' <+: file) : ∃ as' tail, as' <+: as ∧ F.Layout file' as' tail := by
  induction as generalizing file file' with
  | nil =>
      have hfile : file = [] := by simpa using h.eq
      rw [hfile, List.prefix_nil] at hp
      subst hp
      exact ⟨[], [], List.nil_prefix, layout_nil⟩
  | cons a as ih =>
      have ha : F.Valid a := h.valid a List.mem_cons_self
      have hfile : file = F.enc a ++ as.flatMap F.enc := by simpa using h.eq
      rw [hfile] at hp
      rcases Nat.lt_or_ge file'.length (F.enc a).length with hlt | hle
      · -- the first record is cut off
        have hcut : file' = (F.enc a).take file'.length := by
          rw [← List.take_append_of_le_length hlt.le]
          exact List.prefix_iff_eq_take.mp hp
        have htorn := F.torn_take a ha file'.length hlt
        rw [← hcut] at htorn
        exact ⟨[], file', List.nil_prefix, rfl, nofun, htorn⟩
      · obtain ⟨rest, rfl⟩ := List.prefix_of_prefix_length_le (List.prefix_append _ _) hp hle
        obtain ⟨as', tail, hpre, hlay⟩ :=
          ih ⟨(List.append_nil _).symm, fun b hb => h.valid b (List.mem_cons_of_mem a hb),
            F.torn_nil⟩ ((List.prefix_append_right_inj _).mp hp)
        refine ⟨a :: as', tail, List.cons_prefix_cons.mpr ⟨rfl, hpre⟩, ?_, ?_, hlay.torn⟩
        · rw [hlay.eq, List.flatMap_cons, List.append_assoc]
        · exact List.forall_mem_cons.mpr ⟨ha, hlay.valid⟩

end RecordLog.Framing

namespace SizeMirror

variable {φ : Type} [DecidableEq φ] {c c' : Copies φ} {disk : φ → Bytes} {f : φ}

/-- What the mirror has of one file, and will have when it has sent what it is sending, are
beginnings of it, and no remembered size is beyond the copy. -/
structure Copies.Begins (c : Copies φ) (f : φ) (file : Bytes) : Prop where
  copy : c.copy f <+: file
  nonempty : c.remote f ≠ some []
  saved : c.saved f ≤ (c.copy f).length
  sizes : ∀ r, c.round = some r → c.saved f ≤ r.sizes f ∧ r.sizes f ≤ (c.copy f).length
  reading : ∀ sizes size rest, c.round = some ⟨sizes, .reading f size rest⟩ →
    sizes f < size ∧ size ≤ file.length
  sending : ∀ sizes size data rest, c.round = some ⟨sizes, .sending f size data rest⟩ →
    sizes f < size ∧ size ≤ data.length ∧ data <+: file

omit [DecidableEq φ] in
theorem Copies.Begins.empty (f : φ) (file : Bytes) : (Copies.empty : Copies φ).Begins f file where
  copy := List.nil_prefix
  nonempty := nofun
  saved := Nat.zero_le _
  sizes := nofun
  reading := nofun
  sending := nofun

omit [DecidableEq φ] in
/-- **A file that grows** keeps its copies beginning it. -/
theorem Copies.Begins.grow {file file' : Bytes} (h : c.Begins f file) (hgrow : file <+: file') :
    c.Begins f file' where
  copy := h.copy.trans hgrow
  nonempty := h.nonempty
  saved := h.saved
  sizes := h.sizes
  reading sizes size rest hr := by
    obtain ⟨hlt, hle⟩ := h.reading sizes size rest hr
    exact ⟨hlt, hle.trans hgrow.length_le⟩
  sending sizes size data rest hr := by
    obtain ⟨hlt, hle, hpre⟩ := h.sending sizes size data rest hr
    exact ⟨hlt, hle, hpre.trans hgrow⟩

omit [DecidableEq φ] in
/-- A round that ends, or goes on to the next file, leaves the copies. -/
theorem Copies.Begins.round {file : Bytes} {saved : φ → ℕ} {round : Option (Round φ)}
    (h : c.Begins f file) (hsaved : saved f ≤ (c.copy f).length)
    (hround : ∀ r ∈ round, saved f ≤ r.sizes f ∧ r.sizes f ≤ (c.copy f).length ∧
      ∃ rest, r.phase = .checking rest) :
    Copies.Begins { c with saved, round } f file where
  copy := h.copy
  nonempty := h.nonempty
  saved := hsaved
  sizes r hr := ⟨(hround r hr).1, (hround r hr).2.1⟩
  reading sizes size rest hr := by
    obtain ⟨-, -, rest', hphase⟩ := hround _ hr
    cases hphase
  sending sizes size data rest hr := by
    obtain ⟨-, -, rest', hphase⟩ := hround _ hr
    cases hphase

/-- The copy of a file is replaced by what the round has read of it. -/
theorem Copies.Begins.store {file : Bytes} {g : φ} {sizes sizes' : φ → ℕ} {size : ℕ}
    {data : Bytes} {rest : List φ} (h : c.Begins f file)
    (hr : c.round = some ⟨sizes, .sending g size data rest⟩)
    (hsizes' : sizes' = sizes ∨ sizes' = Function.update sizes g size) :
    Copies.Begins ⟨Function.update c.remote g (some data), c.saved,
      some ⟨sizes', .checking rest⟩⟩ f file := by
  obtain ⟨hsaved, hsizes⟩ := h.sizes _ hr
  dsimp only at hsaved hsizes
  by_cases hf : f = g
  · subst hf
    obtain ⟨hlt, hle, hpre⟩ := h.sending _ _ _ _ hr
    have hcopy : Copies.copy ⟨Function.update c.remote f (some data), c.saved,
        some ⟨sizes', .checking rest⟩⟩ f = data := by simp [Copies.copy]
    have hbounds : sizes f ≤ sizes' f ∧ sizes' f ≤ data.length := by
      rcases hsizes' with rfl | rfl
      · omega
      · rw [Function.update_self]
        omega
    refine ⟨hcopy.symm ▸ hpre, ?_, ?_, ?_, fun _ _ _ hr => (by cases hr),
      fun _ _ _ _ hr => (by cases hr)⟩
    · dsimp only
      rw [Function.update_self]
      rintro ⟨⟩
      rw [List.length_nil] at hle
      omega
    · rw [hcopy]
      dsimp only
      omega
    · rintro r ⟨⟩
      rw [hcopy]
      dsimp only
      omega
  · have hcopy : Copies.copy ⟨Function.update c.remote g (some data), c.saved,
        some ⟨sizes', .checking rest⟩⟩ f = c.copy f := by simp [Copies.copy, hf]
    have hsame : sizes' f = sizes f := by
      rcases hsizes' with rfl | rfl
      · rfl
      · exact Function.update_of_ne hf _ _
    refine ⟨hcopy.symm ▸ h.copy, ?_, hcopy.symm ▸ h.saved, ?_, fun _ _ _ hr => (by cases hr),
      fun _ _ _ _ hr => (by cases hr)⟩
    · dsimp only
      rw [Function.update_of_ne hf]
      exact h.nonempty
    · rintro r ⟨⟩
      rw [hcopy]
      dsimp only
      rw [hsame]
      exact ⟨hsaved, hsizes⟩

/-- **The steps of a mirror** keep its copies beginning a file. -/
theorem Copies.Begins.act {tracked : List φ} {e : SyncEvent} (h : c.Begins f (disk f))
    (hs : c.act tracked disk e = some c') : c'.Begins f (disk f) := by
  obtain ⟨remote, saved, round⟩ := c
  cases e with
  | begin =>
      cases round with
      | none =>
          obtain rfl := Option.some.inj hs
          refine h.round h.saved ?_
          rintro r ⟨⟩
          exact ⟨le_rfl, h.saved, _, rfl⟩
      | some r => cases hs
  | check =>
      rcases round with _ | ⟨sizes, (_ | ⟨g, rest⟩) | _ | _⟩
      case check.some.checking.cons =>
        obtain rfl := Option.some.inj hs
        obtain ⟨hsaved, hsizes⟩ := h.sizes _ rfl
        dsimp only
        split_ifs with hlt
        · refine ⟨h.copy, h.nonempty, h.saved, ?_, ?_, fun _ _ _ _ hr => (by cases hr)⟩
          · rintro r ⟨⟩
            exact ⟨hsaved, hsizes⟩
          · rintro _ _ _ ⟨⟩
            exact ⟨hlt, le_rfl⟩
        · refine h.round h.saved ?_
          rintro r ⟨⟩
          exact ⟨hsaved, hsizes, _, rfl⟩
      all_goals cases hs
  | read =>
      rcases round with _ | ⟨sizes, _ | ⟨g, size, rest⟩ | _⟩
      case read.some.reading =>
        obtain rfl := Option.some.inj hs
        refine ⟨h.copy, h.nonempty, h.saved, ?_, fun _ _ _ hr => (by cases hr), ?_⟩
        · rintro r ⟨⟩
          exact h.sizes ⟨sizes, .reading g size rest⟩ rfl
        · rintro _ _ _ _ ⟨⟩
          obtain ⟨hlt, hle⟩ := h.reading _ _ _ rfl
          exact ⟨hlt, hle, List.prefix_refl _⟩
      all_goals cases hs
  | readFailed =>
      rcases round with _ | ⟨sizes, _ | ⟨g, size, rest⟩ | _⟩
      case readFailed.some.reading =>
        obtain rfl := Option.some.inj hs
        refine h.round h.saved ?_
        rintro r ⟨⟩
        exact ⟨(h.sizes _ rfl).1, (h.sizes _ rfl).2, _, rfl⟩
      all_goals cases hs
  | send outcome =>
      rcases round with _ | ⟨sizes, _ | _ | ⟨g, size, data, rest⟩⟩
      case send.some.sending =>
        rcases outcome with _ | _ | _
        · obtain rfl := Option.some.inj hs
          exact h.store rfl (.inr rfl)
        · obtain rfl := Option.some.inj hs
          refine h.round h.saved ?_
          rintro r ⟨⟩
          exact ⟨(h.sizes _ rfl).1, (h.sizes _ rfl).2, _, rfl⟩
        · obtain rfl := Option.some.inj hs
          exact h.store rfl (.inl rfl)
      all_goals cases hs
  | finish memory =>
      rcases round with _ | ⟨sizes, (_ | _) | _ | _⟩
      case finish.some.checking.nil =>
        obtain rfl := Option.some.inj hs
        refine h.round ?_ fun r hr => absurd hr (Option.not_mem_none r)
        cases memory with
        | saved => exact (h.sizes _ rfl).2
        | kept => exact h.saved
        | lost => exact Nat.zero_le _
      all_goals cases hs
  | abort =>
      cases round with
      | none => cases hs
      | some r =>
          obtain rfl := Option.some.inj hs
          exact h.round h.saved fun r hr => absurd hr (Option.not_mem_none r)

/-- **After a round that nothing disturbs** the copy is the file. -/
theorem Copies.Begins.doRound {tracked : List φ} (h : c.Begins f (disk f)) (hf : f ∈ tracked) :
    (c.doRound tracked disk).copy f = disk f := by
  have hremote : (c.doRound tracked disk).remote f =
      if f ∈ tracked ∧ c.saved f < (disk f).length then some (disk f) else c.remote f :=
    foldl_mirrorFile disk tracked (c.remote, c.saved) f
  rw [Copies.copy, hremote]
  by_cases hlt : c.saved f < (disk f).length
  · rw [if_pos ⟨hf, hlt⟩, Option.getD_some]
  · rw [if_neg fun h => hlt h.2]
    exact h.copy.eq_of_length_le ((not_lt.mp hlt).trans h.saved)

end SizeMirror
