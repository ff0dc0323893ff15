import Mathlib.Logic.Function.Basic
import Cxdb.ByteFormat
import Cxdb.Transition

/-!
# Mirrors That Compare Sizes

A mirror holds a copy of each of a family of files. In a round it goes through the tracked files
one after the other, and copies a file when it is longer than the size that it remembers for it.
Between two steps of a round the files change: they grow, or they are written anew.

A mirror of this kind never looks at what it has copied. It works as long as every file keeps
beginning with its copy: then a file that is no longer than the remembered size is its copy.

## Main results

* `Follows.act`, `Follows.grow`, `Follows.rewrite`, `Follows.settle`: a mirror follows its files
  through its own steps, growth, and the beginning and the end of a rewrite.
* `Follows.doRound`: after a round in which no file changes, every copy is the file.
* `doRound_run`: such a round, step by step.
-/

namespace SizeMirror

open ByteFormat Transition

variable {φ : Type} [DecidableEq φ]

/-- Where a round stands: before the next file, or with a file that has to be copied, whose
content has then been read. -/
inductive Phase (φ : Type) where
  | checking (rest : List φ)
  | reading (file : φ) (size : ℕ) (rest : List φ)
  | sending (file : φ) (size : ℕ) (data : Bytes) (rest : List φ)
  deriving DecidableEq

/-- A round, with the sizes that it will remember. -/
structure Round (φ : Type) where
  sizes : φ → ℕ
  phase : Phase φ

/-- The copies, the remembered sizes and the round that is going on. -/
structure Copies (φ : Type) where
  remote : φ → Option Bytes
  saved : φ → ℕ
  round : Option (Round φ)

/-- No copies at all. -/
def Copies.empty : Copies φ where
  remote _ := Option.none
  saved _ := 0
  round := Option.none

/-- The content of a copy; a file without a copy counts as an empty one. -/
def Copies.copy (c : Copies φ) (f : φ) : Bytes := (c.remote f).getD []

/-- How the sending of a file ends. A copy can arrive although an error is reported. -/
inductive Sent where
  | stored
  | failed (arrived : Bool)
  deriving DecidableEq

/-- What becomes of the remembered sizes at the end of a round. -/
inductive Memory where
  | saved
  | kept
  | lost
  deriving DecidableEq

/-- The steps of a mirror. -/
inductive SyncEvent where
  | begin
  | check
  | read
  | readFailed
  | send (outcome : Sent)
  | finish (memory : Memory)
  | abort
  deriving DecidableEq

/-- What a step does, if it can happen. -/
def Copies.act (tracked : List φ) (disk : φ → Bytes) (c : Copies φ) :
    SyncEvent → Option (Copies φ)
  | .begin =>
      match c.round with
      | Option.none => some { c with round := some ⟨c.saved, .checking tracked⟩ }
      | _ => Option.none
  | .check =>
      match c.round with
      | some ⟨sizes, .checking (f :: rest)⟩ =>
          let phase :=
            if sizes f < (disk f).length then .reading f (disk f).length rest
            else .checking rest
          some { c with round := some ⟨sizes, phase⟩ }
      | _ => Option.none
  | .read =>
      match c.round with
      | some ⟨sizes, .reading f size rest⟩ =>
          some { c with round := some ⟨sizes, .sending f size (disk f) rest⟩ }
      | _ => Option.none
  | .readFailed =>
      match c.round with
      | some ⟨sizes, .reading _ _ rest⟩ =>
          some { c with round := some ⟨sizes, .checking rest⟩ }
      | _ => Option.none
  | .send outcome =>
      match c.round with
      | some ⟨sizes, .sending f size data rest⟩ =>
          match outcome with
          | .stored =>
              some { c with
                remote := Function.update c.remote f (some data)
                round := some ⟨Function.update sizes f size, .checking rest⟩ }
          | .failed arrived =>
              some { c with
                remote := if arrived then Function.update c.remote f (some data) else c.remote
                round := some ⟨sizes, .checking rest⟩ }
      | _ => Option.none
  | .finish memory =>
      match c.round with
      | some ⟨sizes, .checking []⟩ =>
          some { c with
            saved := match memory with
              | .saved => sizes
              | .kept => c.saved
              | .lost => fun _ => 0
            round := Option.none }
      | _ => Option.none
  | .abort =>
      match c.round with
      | some _ => some { c with round := Option.none }
      | _ => Option.none

/-- The copies and the sizes after a file has been looked at, when nothing disturbs it. -/
def mirrorFile (disk : φ → Bytes) (s : (φ → Option Bytes) × (φ → ℕ)) (f : φ) :
    (φ → Option Bytes) × (φ → ℕ) :=
  if s.2 f < (disk f).length then
    (Function.update s.1 f (some (disk f)), Function.update s.2 f (disk f).length)
  else s

/-- A round in which no file changes and nothing fails. -/
def Copies.doRound (tracked : List φ) (disk : φ → Bytes) (c : Copies φ) : Copies φ where
  remote := (tracked.foldl (mirrorFile disk) (c.remote, c.saved)).1
  saved := (tracked.foldl (mirrorFile disk) (c.remote, c.saved)).2
  round := Option.none

/-! ### Following the files -/

/-- What a version of a file can rely on: that the file begins with it, or that it will when the
rewrite is done that is going on. -/
def Lasts (disk : φ → Bytes) (goal : Option (φ → Bytes)) (f : φ) (version : Bytes) : Prop :=
  version <+: disk f ∨ ∃ g ∈ goal, disk f <+: g f ∧ version <+: g f

/-- The round that is going on remembers no size beyond the copy, and neither does it for the file
that it reads or sends. -/
structure Round.Follows (r : Round φ) (c : Copies φ) (disk : φ → Bytes)
    (goal : Option (φ → Bytes)) : Prop where
  sizes : ∀ f, r.sizes f ≤ (c.copy f).length
  older : ∀ f, c.saved f ≤ r.sizes f
  reading : ∀ f size rest, r.phase = .reading f size rest →
    r.sizes f < size ∧ size ≤ (disk f).length
  sending : ∀ f size data rest, r.phase = .sending f size data rest →
    r.sizes f < size ∧ size ≤ data.length ∧ Lasts disk goal f data

/-- The mirror follows its files: copies are versions that last, and no remembered size is beyond
the copy. -/
structure Copies.Follows (c : Copies φ) (disk : φ → Bytes) (goal : Option (φ → Bytes)) :
    Prop where
  lasts : ∀ f, Lasts disk goal f (c.copy f)
  nonempty : ∀ f, c.remote f ≠ some []
  saved : ∀ f, c.saved f ≤ (c.copy f).length
  round : ∀ r, c.round = some r → r.Follows c disk goal

variable {c c' : Copies φ} {disk disk' : φ → Bytes} {goal : Option (φ → Bytes)} {f : φ}
  {version : Bytes}

omit [DecidableEq φ] in
/-- An empty mirror follows any files. -/
theorem Copies.Follows.empty (disk : φ → Bytes) (goal : Option (φ → Bytes)) :
    (Copies.empty : Copies φ).Follows disk goal where
  lasts _ := .inl List.nil_prefix
  nonempty _ := nofun
  saved _ := Nat.zero_le _
  round _ := nofun

omit [DecidableEq φ] in
/-- Files that keep what lasts keep the mirror following. -/
theorem Copies.Follows.mono (h : c.Follows disk goal) {goal' : Option (φ → Bytes)}
    (hlasts : ∀ f, Lasts disk goal f (c.copy f) → Lasts disk' goal' f (c.copy f))
    (hreading : ∀ r f size rest, c.round = some r → r.phase = .reading f size rest →
      size ≤ (disk f).length → size ≤ (disk' f).length)
    (hsending : ∀ r f size data rest, c.round = some r → r.phase = .sending f size data rest →
      Lasts disk goal f data → Lasts disk' goal' f data) : c.Follows disk' goal' where
  lasts f := hlasts f (h.lasts f)
  nonempty := h.nonempty
  saved := h.saved
  round r hr := by
    obtain ⟨hsizes, holder, hread, hsend⟩ := h.round r hr
    refine ⟨hsizes, holder, fun f size rest hp => ?_, fun f size data rest hp => ?_⟩
    · obtain ⟨hlt, hle⟩ := hread f size rest hp
      exact ⟨hlt, hreading r f size rest hr hp hle⟩
    · obtain ⟨hlt, hle, hl⟩ := hsend f size data rest hp
      exact ⟨hlt, hle, hsending r f size data rest hr hp hl⟩

/-! ### The steps of the mirror -/

omit [DecidableEq φ] in
/-- A round that goes on to the next file. -/
theorem Round.Follows.checking {sizes : φ → ℕ} {phase : Phase φ}
    (h : Round.Follows ⟨sizes, phase⟩ c disk goal) (rest : List φ) (round : Option (Round φ)) :
    Round.Follows ⟨sizes, .checking rest⟩ { c with round } disk goal :=
  ⟨h.sizes, h.older, nofun, nofun⟩

/-- The copy of one file is replaced by a longer version that lasts. -/
theorem Copies.Follows.store {sizes : φ → ℕ} {size : ℕ} {data : Bytes} {rest : List φ}
    (h : c.Follows disk goal) (hr : c.round = some ⟨sizes, .sending f size data rest⟩)
    {sizes' : φ → ℕ} (hsizes' : sizes' = sizes ∨ sizes' = Function.update sizes f size) :
    Copies.Follows ⟨Function.update c.remote f (some data), c.saved,
      some ⟨sizes', .checking rest⟩⟩ disk goal := by
  obtain ⟨hsizes, holder, -, hsend⟩ := h.round _ hr
  obtain ⟨hlt, hle, hlasts⟩ := hsend f size data rest rfl
  dsimp only at hsizes holder hlt
  have hcopy : ∀ g, (Copies.copy ⟨Function.update c.remote f (some data), c.saved,
      some ⟨sizes', .checking rest⟩⟩ g) = if g = f then data else c.copy g := by
    intro g
    by_cases hg : g = f
    · subst hg
      simp [Copies.copy]
    · simp [Copies.copy, hg]
  -- what the round remembers is not beyond the new copy
  have hnew : ∀ g, sizes g ≤ sizes' g ∧ sizes' g ≤ if g = f then data.length else sizes g := by
    intro g
    by_cases hg : g = f
    · subst hg
      rcases hsizes' with e | e
      · simp only [e, if_true]
        omega
      · simp only [e, if_true, Function.update_self]
        omega
    · rcases hsizes' with e | e <;> simp [e, hg]
  refine ⟨fun g => ?_, fun g => ?_, fun g => ?_, ?_⟩
  · rw [hcopy]
    split_ifs with hg
    · exact hg ▸ hlasts
    · exact h.lasts g
  · by_cases hg : g = f
    · subst hg
      dsimp only
      rw [Function.update_self]
      rintro ⟨⟩
      rw [List.length_nil] at hle
      omega
    · dsimp only
      rw [Function.update_of_ne hg]
      exact h.nonempty g
  · rw [hcopy]
    have hg : c.saved g ≤ if g = f then data.length else sizes g :=
      (holder g).trans ((hnew g).1.trans (hnew g).2)
    have hcopied := h.saved g
    change c.saved g ≤ _
    split_ifs at hg ⊢
    · exact hg
    · exact hcopied
  · rintro r ⟨⟩
    refine ⟨fun g => ?_, fun g => (holder g).trans (hnew g).1, nofun, nofun⟩
    rw [hcopy]
    have hg := (hnew g).2
    change sizes' g ≤ _
    split_ifs at hg ⊢
    · exact hg
    · exact hg.trans (hsizes g)

/-- **The steps of a mirror** keep it following its files. -/
theorem Copies.Follows.act {tracked : List φ} {e : SyncEvent} (h : c.Follows disk goal)
    (hs : c.act tracked disk e = some c') : c'.Follows disk goal := by
  obtain ⟨remote, saved, round⟩ := c
  cases e with
  | begin =>
      cases round with
      | none =>
          obtain rfl := Option.some.inj hs
          refine ⟨h.lasts, h.nonempty, h.saved, ?_⟩
          rintro r ⟨⟩
          exact ⟨h.saved, fun _ => le_rfl, nofun, nofun⟩
      | some r => cases hs
  | check =>
      rcases round with _ | ⟨sizes, (_ | ⟨f, rest⟩) | _ | _⟩
      case check.some.checking.cons =>
        obtain rfl := Option.some.inj hs
        refine ⟨h.lasts, h.nonempty, h.saved, ?_⟩
        rintro r ⟨⟩
        have hround := h.round _ rfl
        dsimp only
        split_ifs with hlt
        · refine ⟨hround.sizes, hround.older, ?_, nofun⟩
          rintro _ _ _ ⟨⟩
          exact ⟨hlt, le_rfl⟩
        · exact hround.checking rest _
      all_goals cases hs
  | read =>
      rcases round with _ | ⟨sizes, _ | ⟨f, size, rest⟩ | _⟩
      case read.some.reading =>
        obtain rfl := Option.some.inj hs
        refine ⟨h.lasts, h.nonempty, h.saved, ?_⟩
        rintro r ⟨⟩
        have hround := h.round _ rfl
        refine ⟨hround.sizes, hround.older, nofun, ?_⟩
        rintro _ _ _ _ ⟨⟩
        obtain ⟨hlt, hle⟩ := hround.reading f size rest rfl
        exact ⟨hlt, hle, .inl (List.prefix_refl _)⟩
      all_goals cases hs
  | readFailed =>
      rcases round with _ | ⟨sizes, _ | ⟨f, size, rest⟩ | _⟩
      case readFailed.some.reading =>
        obtain rfl := Option.some.inj hs
        refine ⟨h.lasts, h.nonempty, h.saved, ?_⟩
        rintro r ⟨⟩
        exact (h.round _ rfl).checking rest _
      all_goals cases hs
  | send outcome =>
      rcases round with _ | ⟨sizes, _ | _ | ⟨f, size, data, rest⟩⟩
      case send.some.sending =>
        cases outcome with
        | stored =>
            obtain rfl := Option.some.inj hs
            exact h.store rfl (.inr rfl)
        | failed arrived =>
            obtain rfl := Option.some.inj hs
            cases arrived with
            | true => exact h.store rfl (.inl rfl)
            | false =>
                refine ⟨h.lasts, h.nonempty, h.saved, ?_⟩
                rintro r ⟨⟩
                exact (h.round _ rfl).checking rest _
      all_goals cases hs
  | finish memory =>
      rcases round with _ | ⟨sizes, (_ | _) | _ | _⟩
      case finish.some.checking.nil =>
        obtain rfl := Option.some.inj hs
        refine ⟨h.lasts, h.nonempty, fun f => ?_, nofun⟩
        cases memory with
        | saved => exact (h.round _ rfl).sizes f
        | kept => exact h.saved f
        | lost => exact Nat.zero_le _
      all_goals cases hs
  | abort =>
      cases round with
      | none => cases hs
      | some r =>
          obtain rfl := Option.some.inj hs
          exact ⟨h.lasts, h.nonempty, h.saved, nofun⟩

/-! ### Files that change -/

omit [DecidableEq φ] in
/-- **Growth.** One file grows towards the goal, if there is one. -/
theorem Copies.Follows.grow (h : c.Follows disk goal)
    (hgrow : ∀ f, disk f <+: disk' f) (hgoal : ∀ g ∈ goal, ∀ f, disk f <+: g f → disk' f <+: g f) :
    c.Follows disk' goal := by
  have hmono : ∀ f version, Lasts disk goal f version → Lasts disk' goal f version := by
    rintro f version (hl | ⟨g, hg, hd, hl⟩)
    · exact .inl (hl.trans (hgrow f))
    · exact .inr ⟨g, hg, hgoal g hg f hd, hl⟩
  exact h.mono (fun f => hmono f _)
    (fun _ f _ _ _ _ hle => hle.trans (hgrow f).length_le) (fun _ f _ data _ _ _ => hmono f data)

/-- A round keeps its hold on a file that is cut: the size that has been compared is still
reached, and what is being sent is a beginning of the goal. -/
def Phase.Kept (f : φ) (cut goal : Bytes) : Phase φ → Prop
  | .checking _ => True
  | .reading f' size _ => f' = f → size ≤ cut.length
  | .sending f' _ data _ => f' = f → data <+: goal

instance (f : φ) (cut goal : Bytes) : DecidablePred (Phase.Kept f cut goal) := fun
  | .checking _ => inferInstanceAs (Decidable True)
  | .reading f' size _ => inferInstanceAs (Decidable (f' = f → size ≤ cut.length))
  | .sending f' _ data _ => inferInstanceAs (Decidable (f' = f → data <+: goal))

/-- What a file is cut to, on the way to a goal, keeps its copy. -/
def Copies.Kept (c : Copies φ) (f : φ) (cut goal : Bytes) : Prop :=
  c.copy f <+: goal ∧ ∀ r ∈ c.round, r.phase.Kept f cut goal

instance (c : Copies φ) (f : φ) (cut goal : Bytes) : Decidable (c.Kept f cut goal) :=
  inferInstanceAs (Decidable (_ ∧ _))

/-- **Rewriting.** A file is cut to the beginning of a goal. -/
theorem Copies.Follows.rewrite {g : φ → Bytes} {cut : Bytes} (h : c.Follows disk (some g))
    (hcut : cut <+: g f) (hkept : c.Kept f cut (g f)) :
    c.Follows (Function.update disk f cut) (some g) := by
  have hmono : ∀ f' version, (f' = f → version <+: g f) →
      Lasts disk (some g) f' version → Lasts (Function.update disk f cut) (some g) f' version := by
    intro f' version hv hl
    by_cases hf : f' = f
    · subst hf
      exact .inr ⟨g, rfl, by simpa using hcut, hv rfl⟩
    · simpa [Lasts, Function.update_of_ne hf] using hl
  obtain ⟨hcopy, hround⟩ := hkept
  refine h.mono (fun f' => hmono f' _ fun hf => hf ▸ hcopy) ?_ ?_
  · intro r f' size rest hr hp hle
    have hphase := hround r hr
    rw [hp] at hphase
    by_cases hf : f' = f
    · subst hf
      simpa using hphase rfl
    · simpa [Function.update_of_ne hf] using hle
  · intro r f' size data rest hr hp
    have hphase := hround r hr
    rw [hp] at hphase
    exact hmono f' data hphase

omit [DecidableEq φ] in
/-- **The end of a rewrite**, or of a call: when the files are what they had to become, or when
all that lasts is already there. -/
theorem Copies.Follows.settle (h : c.Follows disk goal) (goal' : Option (φ → Bytes))
    (hnow : ∀ f version, Lasts disk goal f version → version <+: disk f) :
    c.Follows disk goal' :=
  h.mono (fun f hl => .inl (hnow f _ hl)) (fun _ _ _ _ _ _ hle => hle)
    fun _ f _ data _ _ _ hl => .inl (hnow f data hl)

/-! ### A round in which no file changes -/

/-- What a quiet round has made of one file. -/
theorem foldl_mirrorFile (disk : φ → Bytes) (files : List φ)
    (s : (φ → Option Bytes) × (φ → ℕ)) (f : φ) :
    (files.foldl (mirrorFile disk) s).1 f =
      if f ∈ files ∧ s.2 f < (disk f).length then some (disk f) else s.1 f := by
  induction files generalizing s with
  | nil => simp
  | cons g files ih =>
      rw [List.foldl_cons, ih, mirrorFile]
      by_cases hlt : s.2 g < (disk g).length
      · by_cases hf : f = g
        · subst hf
          simp [hlt]
        · simp [hlt, hf]
      · rw [if_neg hlt]
        by_cases hf : f = g
        · subst hf
          simp [hlt]
        · simp [hf]

/-- **After a quiet round every copy is the file.** An empty file has none. -/
theorem Copies.Follows.doRound {tracked : List φ} (h : c.Follows disk none) (hf : f ∈ tracked) :
    (c.doRound tracked disk).remote f = if disk f = [] then none else some (disk f) := by
  have hpre : c.copy f <+: disk f := by
    rcases h.lasts f with hl | ⟨g, hg, -⟩
    · exact hl
    · cases hg
  have hremote : (c.doRound tracked disk).remote f =
      if f ∈ tracked ∧ c.saved f < (disk f).length then some (disk f) else c.remote f :=
    foldl_mirrorFile disk tracked (c.remote, c.saved) f
  rw [hremote]
  by_cases hlt : c.saved f < (disk f).length
  · rw [if_pos ⟨hf, hlt⟩, if_neg (List.length_pos_iff.mp (by omega))]
  · -- the file is no longer than the copy that it begins with
    rw [if_neg fun h => hlt h.2]
    have heq : c.copy f = disk f :=
      hpre.eq_of_length_le ((not_lt.mp hlt).trans (h.saved f))
    have hne := h.nonempty f
    rw [Copies.copy] at heq
    cases hr : c.remote f with
    | none =>
        rw [hr, Option.getD_none] at heq
        rw [← heq, if_pos rfl]
    | some b =>
        rw [hr, Option.getD_some] at heq
        rw [hr] at hne
        rw [← heq, if_neg fun hb : b = [] => hne (congrArg some hb)]

/-- The steps of a quiet round over some files. -/
def quietSteps (disk : φ → Bytes) : List φ → (φ → ℕ) → List SyncEvent
  | [], _ => []
  | f :: files, sizes =>
      if sizes f < (disk f).length then
        .check :: .read :: .send .stored ::
          quietSteps disk files (Function.update sizes f (disk f).length)
      else .check :: quietSteps disk files sizes

/-- **A quiet round, step by step.** -/
theorem doRound_run (tracked : List φ) (disk : φ → Bytes) (c : Copies φ) (h : c.round = none) :
    Run (Steps fun c => c.act tracked disk) c
      (.begin :: (quietSteps disk tracked c.saved ++ [.finish .saved]))
      (c.doRound tracked disk) := by
  have hfiles : ∀ (files : List φ) (remote : φ → Option Bytes) (sizes saved : φ → ℕ),
      Run (Steps fun c => Copies.act tracked disk c)
        ⟨remote, saved, some ⟨sizes, .checking files⟩⟩ (quietSteps disk files sizes)
        ⟨(files.foldl (mirrorFile disk) (remote, sizes)).1, saved,
          some ⟨(files.foldl (mirrorFile disk) (remote, sizes)).2, .checking []⟩⟩ := by
    intro files
    induction files with
    | nil => exact fun _ _ _ => .start
    | cons f files ih =>
        intro remote sizes saved
        rw [quietSteps, List.foldl_cons, mirrorFile]
        split_ifs with hlt
        · have hcheck : Copies.act tracked disk
              ⟨remote, saved, some ⟨sizes, .checking (f :: files)⟩⟩ .check =
                some ⟨remote, saved, some ⟨sizes, .reading f (disk f).length files⟩⟩ := by
            simp [Copies.act, hlt]
          exact (Run.single hcheck).append ((Run.single (e := .read) rfl).append
            ((Run.single (e := .send .stored) rfl).append (ih _ _ _)))
        · have hcheck : Copies.act tracked disk
              ⟨remote, saved, some ⟨sizes, .checking (f :: files)⟩⟩ .check =
                some ⟨remote, saved, some ⟨sizes, .checking files⟩⟩ := by
            simp [Copies.act, hlt]
          exact (Run.single hcheck).append (ih _ _ _)
  obtain ⟨remote, saved, round⟩ := c
  obtain rfl : round = none := h
  have hbegin : Run (Steps fun c => Copies.act tracked disk c) ⟨remote, saved, none⟩ [.begin]
      ⟨remote, saved, some ⟨saved, .checking tracked⟩⟩ := .single rfl
  exact hbegin.append ((hfiles tracked remote saved saved).append (.single rfl))

end SizeMirror
