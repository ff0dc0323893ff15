import Mathlib.Algebra.GroupWithZero.Nat
import Cxdb.ByteFormat

/-!
# Append-Only Record Logs

A log file is a concatenation of encoded records, possibly ending in the torn start of
one more. A *loader* reads records from the front until it meets something that is not
one; what it then does with the bytes that are left is part of its design, and `Read`
names the choices: leave the file alone (`stop`), truncate it at the start of the
unreadable record (`cut`), or give up (`fail`).

`Framing` collects a reader, a writer and the laws between them; `Layout` says that a
file is a list of valid records followed by a tail the reader does not take.

## Main results

* `Framing.scan_layout`: loading a laid-out file folds over exactly its records and
  leaves the records plus the part of the tail that `stop` does not remove.
* `Framing.Layout.append`, `Framing.Layout.append_part`: what a whole and a partial
  write of one more record make of a file.
* `Framing.exists_layout`, `Framing.Layout.longest`: every file is laid out, and its records
  are those of its longest prefix.
* `Framing.Layout.unread`: the tail is a function of the file.
-/

namespace RecordLog

open ByteFormat

variable {ε α σ : Type}

/-- What a reader makes of the bytes in front of it. -/
inductive Read (ε α : Type) where
  /-- A record, and the bytes after it. -/
  | record (a : α) (rest : Bytes)
  /-- No record; the loader leaves the file as it is. -/
  | stop
  /-- No record; the loader truncates the file where this one starts. -/
  | cut
  /-- The loader fails. -/
  | fail (e : ε)

/-- One pass of a loader from position `pos`: fold `f` over the records (each with its
position) and return the length the file is left with. Every record has at least one
byte, so fuel beyond the length of the input is never used up. -/
def scanFrom (read : Bytes → Read ε α) (f : σ → ℕ → α → σ) :
    ℕ → ℕ → σ → Bytes → Except ε (σ × ℕ)
  | 0, pos, s, bs => .ok (s, pos + bs.length)
  | fuel + 1, pos, s, bs =>
      match read bs with
      | .record a rest =>
          scanFrom read f fuel (pos + (bs.length - rest.length)) (f s pos a) rest
      | .stop => .ok (s, pos + bs.length)
      | .cut => .ok (s, pos)
      | .fail e => .error e

/-- Load a file: the folded state, and the file as the loader leaves it. -/
def scan (read : Bytes → Read ε α) (f : σ → ℕ → α → σ) (s : σ) (file : Bytes) :
    Except ε (σ × Bytes) :=
  (scanFrom read f (file.length + 1) 0 s file).map fun r => (r.1, file.take r.2)

/-- The fold a loader makes over its records: each is handed over with its position. -/
def foldOffsets (size : α → ℕ) (f : σ → ℕ → α → σ) : ℕ → σ → List α → σ
  | _, s, [] => s
  | pos, s, a :: as => foldOffsets size f (pos + size a) (f s pos a) as

/-- Folding over a concatenation continues at the position the first part ends at. -/
theorem foldOffsets_append (size : α → ℕ) (f : σ → ℕ → α → σ) (pos : ℕ) (s : σ)
    (as bs : List α) :
    foldOffsets size f pos s (as ++ bs) =
      foldOffsets size f (pos + (as.map size).sum) (foldOffsets size f pos s as) bs := by
  induction as generalizing pos s with
  | nil => simp [foldOffsets]
  | cons a as ih => simp [foldOffsets, ih, Nat.add_assoc]

/-- A fold that ignores positions is an ordinary left fold. -/
theorem foldOffsets_eq_foldl (size : α → ℕ) (g : σ → α → σ) (pos : ℕ) (s : σ)
    (as : List α) : foldOffsets size (fun s _ a => g s a) pos s as = as.foldl g s := by
  induction as generalizing pos s with
  | nil => rfl
  | cons a as ih => simp [foldOffsets, ih]

/-- A loader that never gives up loads every file. -/
theorem exists_scan_eq_ok {read : Bytes → Read ε α} (h : ∀ bs e, read bs ≠ .fail e)
    (f : σ → ℕ → α → σ) (s : σ) (file : Bytes) : ∃ r, scan read f s file = .ok r := by
  have hfrom : ∀ fuel pos s bs, ∃ r, scanFrom read f fuel pos s bs = .ok r := by
    intro fuel
    induction fuel with
    | zero => exact fun pos s bs => ⟨_, rfl⟩
    | succ fuel ih =>
        intro pos s bs
        rw [scanFrom]
        split
        · exact ih _ _ _
        · exact ⟨_, rfl⟩
        · exact ⟨_, rfl⟩
        · next e he => exact absurd he (h bs e)
  obtain ⟨r, hr⟩ := hfrom (file.length + 1) 0 s file
  exact ⟨(r.1, file.take r.2), by rw [scan, hr]; rfl⟩

/-- What each record preserves holds of all that is loaded. -/
theorem scan_preserves {read : Bytes → Read ε α} {f : σ → ℕ → α → σ} {P : σ → Prop}
    (hstep : ∀ s pos a, P s → P (f s pos a)) {s : σ} (hs : P s) {file : Bytes}
    {r : σ × Bytes} (h : scan read f s file = .ok r) : P r.1 := by
  have hfrom : ∀ fuel pos s bs r, P s → scanFrom read f fuel pos s bs = .ok r → P r.1 := by
    intro fuel
    induction fuel with
    | zero =>
        intro pos s bs r hs h
        rw [← Except.ok.inj h]
        exact hs
    | succ fuel ih =>
        intro pos s bs r hs h
        rw [scanFrom] at h
        split at h
        · exact ih _ _ _ _ (hstep _ _ _ hs) h
        · rw [← Except.ok.inj h]
          exact hs
        · rw [← Except.ok.inj h]
          exact hs
        · cases h
  rw [scan] at h
  cases hr : scanFrom read f (file.length + 1) 0 s file with
  | error e =>
      rw [hr] at h
      cases h
  | ok r' =>
      rw [hr] at h
      rw [← Except.ok.inj h]
      exact hfrom _ _ _ _ _ hs hr

/-- What the loader leaves of an unreadable tail. -/
def kept (read : Bytes → Read ε α) (tail : Bytes) : Bytes :=
  match read tail with
  | .stop => tail
  | _ => []

/-- The reader takes nothing from `tail`, and does not fail on it. -/
def Torn (read : Bytes → Read ε α) (tail : Bytes) : Prop :=
  read tail = .stop ∨ read tail = .cut

/-- A reader and a writer that fit: the reader takes a valid record from the front of
whatever follows it, and takes nothing from a proper prefix of one. -/
structure Framing (ε α : Type) where
  read : Bytes → Read ε α
  enc : α → Bytes
  Valid : α → Prop
  enc_ne_nil : ∀ a, enc a ≠ []
  read_enc : ∀ a, Valid a → ∀ rest, read (enc a ++ rest) = .record a rest
  torn_nil : Torn read []
  torn_take : ∀ a, Valid a → ∀ k < (enc a).length, Torn read ((enc a).take k)

namespace Framing

variable (F : Framing ε α)

/-- The file is the records `as` followed by `tail`, from which nothing can be read. -/
structure Layout (file : Bytes) (as : List α) (tail : Bytes) : Prop where
  eq : file = as.flatMap F.enc ++ tail
  valid : ∀ a ∈ as, F.Valid a
  torn : Torn F.read tail

variable {F}

theorem kept_nil : kept F.read [] = [] := by
  unfold kept
  split <;> rfl

/-- What is left of a torn tail is torn. -/
theorem torn_kept {tail : Bytes} (h : Torn F.read tail) : Torn F.read (kept F.read tail) := by
  rcases h with h | h
  · exact Or.inl (by simp [kept, h])
  · simpa [kept, h] using F.torn_nil

/-- The loop over a laid-out file, from any position, with fuel to spare. -/
theorem scanFrom_layout (f : σ → ℕ → α → σ) {as : List α} {tail : Bytes}
    (hvalid : ∀ a ∈ as, F.Valid a) (htorn : Torn F.read tail) (pos : ℕ) (s : σ)
    {fuel : ℕ} (hfuel : (as.flatMap F.enc ++ tail).length < fuel) :
    scanFrom F.read f fuel pos s (as.flatMap F.enc ++ tail) =
      .ok (foldOffsets (fun a => (F.enc a).length) f pos s as,
        pos + (as.flatMap F.enc ++ kept F.read tail).length) := by
  induction as generalizing pos s fuel with
  | nil =>
      obtain ⟨fuel, rfl⟩ : ∃ k, fuel = k + 1 := ⟨fuel - 1, by omega⟩
      rcases htorn with h | h <;> simp [scanFrom, foldOffsets, kept, h]
  | cons a as ih =>
      obtain ⟨fuel, rfl⟩ : ∃ k, fuel = k + 1 := ⟨fuel - 1, by omega⟩
      have hpos : 0 < (F.enc a).length := List.length_pos_of_ne_nil (F.enc_ne_nil a)
      have hread := F.read_enc a (hvalid a (by simp)) (as.flatMap F.enc ++ tail)
      simp only [List.flatMap_cons, List.append_assoc, scanFrom, hread]
      rw [ih (fun b hb => hvalid b (by simp [hb])) _ _ (by simp at hfuel ⊢; omega)]
      simp only [foldOffsets, List.length_append]
      congr 2
      · congr 1
        omega
      · omega

/-- **Loading.** A laid-out file loads: the fold runs over exactly its records, and the
file keeps the records and what `kept` leaves of the tail. -/
theorem scan_layout (f : σ → ℕ → α → σ) (s : σ) {file tail : Bytes} {as : List α}
    (h : F.Layout file as tail) :
    scan F.read f s file =
      .ok (foldOffsets (fun a => (F.enc a).length) f 0 s as,
        as.flatMap F.enc ++ kept F.read tail) := by
  obtain ⟨rfl, hvalid, htorn⟩ := h
  rw [scan, scanFrom_layout f hvalid htorn 0 s (Nat.lt_succ_self _)]
  have hkept : kept F.read tail = tail ∨ kept F.read tail = [] := by
    unfold kept
    split <;> simp
  simp only [Except.map, Nat.zero_add]
  congr 2
  rcases hkept with h | h <;> rw [h]
  · exact List.take_length
  · rw [List.append_nil, List.take_left]

/-- A file is laid out in one way only. -/
theorem Layout.unique {file tail tail' : Bytes} {as bs : List α} (h : F.Layout file as tail)
    (h' : F.Layout file bs tail') : as = bs := by
  have hfold : ∀ as : List α, foldOffsets (fun a => (F.enc a).length)
      (fun l _ a => a :: l) 0 [] as = as.reverse := by
    intro as
    simp [foldOffsets_eq_foldl, List.foldl_flip_cons_eq_append]
  have hscan := (scan_layout (fun l _ a => a :: l) [] h).symm.trans
    (scan_layout (fun l _ a => a :: l) [] h')
  rw [hfold, hfold] at hscan
  exact List.reverse_injective (Prod.mk.inj (Except.ok.inj hscan)).1

/-- The file a loader leaves is laid out again, with the tail it kept. -/
theorem Layout.kept {file tail : Bytes} {as : List α} (h : F.Layout file as tail) :
    F.Layout (as.flatMap F.enc ++ kept F.read tail) as (kept F.read tail) :=
  ⟨rfl, h.valid, torn_kept h.torn⟩

theorem layout_nil : F.Layout [] [] [] :=
  ⟨rfl, by simp, F.torn_nil⟩

/-- The length of a file whose records all have the same size. -/
theorem Layout.length {file tail : Bytes} {as : List α} {n : ℕ} (h : F.Layout file as tail)
    (hn : ∀ a, (F.enc a).length = n) : file.length = n * as.length + tail.length := by
  rw [h.eq, List.length_append, List.length_flatMap]
  simp [hn, Nat.mul_comm]

/-- A whole record appended to an aligned file. -/
theorem Layout.append {file : Bytes} {as : List α} {a : α} (h : F.Layout file as [])
    (ha : F.Valid a) : F.Layout (file ++ F.enc a) (as ++ [a]) [] := by
  refine ⟨by simp [h.eq], ?_, F.torn_nil⟩
  intro b hb
  rcases List.mem_append.mp hb with hb | hb
  · exact h.valid b hb
  · exact List.mem_singleton.mp hb ▸ ha

/-- The first bytes of a record, appended to a file that ends in a whole record; appending
no bytes is always possible. -/
theorem Layout.append_part {file tail : Bytes} {as : List α} {a : α}
    (h : F.Layout file as tail) (ha : F.Valid a) {k : ℕ} (hk : k < (F.enc a).length)
    (htail : (F.enc a).take k ≠ [] → tail = []) :
    F.Layout (file ++ (F.enc a).take k) as (tail ++ (F.enc a).take k) := by
  refine ⟨by simp [h.eq], h.valid, ?_⟩
  by_cases hnil : (F.enc a).take k = []
  · simpa [hnil] using h.torn
  · simpa [htail hnil] using F.torn_take a ha k hk

/-! ### Arbitrary files -/

/-- The records are those of the longest prefix of the file that is made of whole records: no
record is in front of what follows. -/
structure LongestPrefix (enc : α → Bytes) (file : Bytes) (as : List α) (tail : Bytes) : Prop where
  eq : file = as.flatMap enc ++ tail
  stuck : ∀ a rest, tail ≠ enc a ++ rest

/-- A reader takes from the front only what a writer has put there. -/
def Sound (F : Framing ε α) : Prop :=
  ∀ bs a rest, F.read bs = .record a rest → bs = F.enc a ++ rest ∧ F.Valid a

/-- **Every file is laid out**, when the reader is sound and never gives up. -/
theorem exists_layout (hsound : F.Sound) (hfail : ∀ bs e, F.read bs ≠ .fail e) (file : Bytes) :
    ∃ as tail, F.Layout file as tail := by
  induction hn : file.length using Nat.strong_induction_on generalizing file with
  | _ n ih =>
      cases hread : F.read file with
      | record a rest =>
          obtain ⟨hfile, ha⟩ := hsound file a rest hread
          have hpos : 0 < (F.enc a).length := List.length_pos_of_ne_nil (F.enc_ne_nil a)
          have hlt : rest.length < n := by
            rw [← hn, hfile, List.length_append]
            omega
          obtain ⟨as, tail, hrest⟩ := ih rest.length hlt rest rfl
          refine ⟨a :: as, tail, ?_, ?_, hrest.torn⟩
          · rw [hfile, hrest.eq, List.flatMap_cons, List.append_assoc]
          · exact List.forall_mem_cons.mpr ⟨ha, hrest.valid⟩
      | stop => exact ⟨[], file, rfl, nofun, .inl hread⟩
      | cut => exact ⟨[], file, rfl, nofun, .inr hread⟩
      | fail e => exact absurd hread (hfail file e)

/-- Nothing is in front of a torn tail. -/
theorem Layout.longest (hvalid : ∀ a, F.Valid a) {file tail : Bytes} {as : List α}
    (h : F.Layout file as tail) : LongestPrefix F.enc file as tail := by
  refine ⟨h.eq, fun a rest heq => ?_⟩
  have hread := F.read_enc a (hvalid a) rest
  rw [← heq] at hread
  rcases h.torn with htorn | htorn <;> rw [hread] at htorn <;> cases htorn

/-- The longest prefix is one: the records of every other one come first in it. -/
theorem LongestPrefix.isPrefixOf (hvalid : ∀ a, F.Valid a) {file tail tail' : Bytes}
    {as bs : List α} (h : LongestPrefix F.enc file as tail)
    (h' : file = bs.flatMap F.enc ++ tail') : bs <+: as := by
  induction bs generalizing file as with
  | nil => exact List.nil_prefix
  | cons b bs ih =>
      cases as with
      | nil =>
          rw [h.eq, List.flatMap_nil, List.nil_append, List.flatMap_cons, List.append_assoc] at h'
          exact absurd h' (h.stuck b _)
      | cons a as =>
          have ha := F.read_enc a (hvalid a) (as.flatMap F.enc ++ tail)
          have hb := F.read_enc b (hvalid b) (bs.flatMap F.enc ++ tail')
          have hfile := h.eq
          rw [List.flatMap_cons, List.append_assoc] at h' hfile
          rw [← hfile, h', hb] at ha
          obtain ⟨rfl, hrest⟩ := Read.record.inj ha
          exact List.cons_prefix_cons.mpr ⟨rfl, ih ⟨rfl, h.stuck⟩ hrest.symm⟩

variable (F)

/-- The bytes at the end of a file that the reader does not take as records. -/
def unread (file : Bytes) : Bytes :=
  match scanFrom F.read (fun n _ a => n + (F.enc a).length) (file.length + 1) 0 0 file with
  | .ok (n, _) => file.drop n
  | .error _ => file

variable {F}

/-- The sizes of the records, summed by the loader's own fold. -/
theorem foldOffsets_size (pos n : ℕ) (as : List α) :
    foldOffsets (fun a => (F.enc a).length) (fun n _ a => n + (F.enc a).length) pos n as =
      n + (as.flatMap F.enc).length := by
  induction as generalizing pos n with
  | nil => simp [foldOffsets]
  | cons a as ih => simp [foldOffsets, ih, Nat.add_assoc]

/-- The tail of a laid-out file is what the reader leaves unread. -/
theorem Layout.unread {file tail : Bytes} {as : List α} (h : F.Layout file as tail) :
    F.unread file = tail := by
  obtain ⟨rfl, hvalid, htorn⟩ := h
  rw [Framing.unread, scanFrom_layout _ hvalid htorn 0 0 (Nat.lt_succ_self _),
    foldOffsets_size]
  simp

end Framing

end RecordLog
