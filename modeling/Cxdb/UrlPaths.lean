import Mathlib.Data.List.DropRight
import Mathlib.Data.List.Induction
import Cxdb.ByteFormat

/-!
# Paths of URLs

How the path and the query of an `http` URL are set, as the URL standard has it: what cannot
stand there is percent-encoded, a backslash counts as a slash, and the segments `.` and `..`,
however they are spelled, are resolved. A path in which nothing of this happens is kept.

## Main results

* `segments_setPath_iff`: a path keeps its segments if and only if it is kept as it is.
* `setQuery_iff`: the same for a query.
-/

namespace UrlPath

open ByteFormat

/-! ### Percent-encoding -/

/-- A digit of an escape. -/
def hexDigit (n : UInt8) : UInt8 := if n < 10 then 48 + n else 55 + n

/-- What holds of sixteen digits. -/
theorem of_digits {p : UInt8 → Prop} (h : ∀ m : Fin 16, p (UInt8.ofNat m)) (n : UInt8)
    (hn : n < 16) : p n := by
  have hlt : n.toNat < 16 := hn
  have hm := h ⟨n.toNat, hlt⟩
  rwa [UInt8.ofNat_toNat] at hm

/-- A set of bytes that are percent-encoded. What escapes are made of is not in it. -/
structure EncodeSet where
  encodes : UInt8 → Bool
  percent : encodes 37 = false
  digit : ∀ n : UInt8, n < 16 → encodes (hexDigit n) = false

/-- Tabs and line breaks are left out of a URL. -/
def isTabOrNewline (b : UInt8) : Bool := b = 9 ∨ b = 10 ∨ b = 13

/-- What separates the segments of a path. -/
def isSeparator (b : UInt8) : Bool := b = 47 ∨ b = 92

namespace EncodeSet

variable (set : EncodeSet)

def encodeByte (b : UInt8) : Bytes :=
  if set.encodes b then [37, hexDigit (b / 16), hexDigit (b % 16)] else [b]

def encode (bs : Bytes) : Bytes := bs.flatMap set.encodeByte

/-- Bytes that are kept as they are. -/
def Leaves (bs : Bytes) : Prop := ∀ b ∈ bs, set.encodes b = false ∧ isTabOrNewline b = false

instance (bs : Bytes) : Decidable (set.Leaves bs) :=
  inferInstanceAs (Decidable (∀ b ∈ bs, set.encodes b = false ∧ isTabOrNewline b = false))

theorem encode_eq {bs : Bytes} (h : ∀ b ∈ bs, set.encodes b = false) : set.encode bs = bs := by
  induction bs with
  | nil => rfl
  | cons b bs ih =>
      rw [encode, List.flatMap_cons, encodeByte, h b List.mem_cons_self, if_neg Bool.false_ne_true,
        ← encode, ih fun b' hb' => h b' (List.mem_cons_of_mem _ hb'), List.singleton_append]

theorem hexDigit_plain (n : UInt8) (h : n < 16) :
    isTabOrNewline (hexDigit n) = false ∧ isSeparator (hexDigit n) = false :=
  of_digits (p := fun n => isTabOrNewline (hexDigit n) = false ∧ isSeparator (hexDigit n) = false)
    (by decide) n h

/-- What is in an encoded text: no byte that is encoded, and nothing else that was not there. -/
theorem mem_encode {bs : Bytes} {b : UInt8} (h : b ∈ set.encode bs) :
    set.encodes b = false ∧
      (b ∈ bs ∨ isTabOrNewline b = false ∧ isSeparator b = false) := by
  obtain ⟨c, hc, hb⟩ := List.mem_flatMap.mp h
  rw [encodeByte] at hb
  split_ifs at hb with hset
  · have hdiv : c / 16 < 16 := by
      have h16 : (16 : UInt8).toNat = 16 := rfl
      have hc := c.toNat_lt
      rw [UInt8.lt_iff_toNat_lt, UInt8.toNat_div, h16]
      omega
    have hmod : c % 16 < 16 := UInt8.mod_lt _ (by decide)
    simp only [List.mem_cons, List.not_mem_nil, or_false] at hb
    rcases hb with rfl | rfl | rfl
    · exact ⟨set.percent, Or.inr ⟨by decide, by decide⟩⟩
    · exact ⟨set.digit _ hdiv, Or.inr (hexDigit_plain _ hdiv)⟩
    · exact ⟨set.digit _ hmod, Or.inr (hexDigit_plain _ hmod)⟩
  · obtain rfl := List.mem_singleton.mp hb
    exact ⟨by simpa using hset, Or.inl hc⟩

end EncodeSet

variable {set : EncodeSet}

/-! ### Queries -/

/-- `set_query` with a query. -/
def setQuery (set : EncodeSet) (query : Bytes) : Bytes :=
  set.encode (query.filter fun b => !isTabOrNewline b)

/-- **A query is kept** if and only if each of its bytes is. -/
theorem setQuery_iff {query : Bytes} : setQuery set query = query ↔ set.Leaves query := by
  constructor
  · intro h b hb
    rw [← h, setQuery] at hb
    obtain ⟨hset, hin⟩ := set.mem_encode hb
    refine ⟨hset, ?_⟩
    rcases hin with hin | hplain
    · simpa using (List.mem_filter.mp hin).2
    · exact hplain.1
  · intro h
    rw [setQuery, List.filter_eq_self.mpr fun b hb => by simp [(h b hb).2],
      set.encode_eq fun b hb => (h b hb).1]

/-! ### Segments -/

/-- The segments of a path that are not empty. -/
def segments (path : Bytes) : List Bytes := (path.splitOn 47).filter (· ≠ [])

theorem segments_nil : segments [] = [] := rfl

theorem segments_append_slash (p q : Bytes) :
    segments (p ++ 47 :: q) = segments p ++ segments q := by
  rw [segments, List.splitOn_append_cons_self, List.filter_append]
  rfl

theorem segments_slash (q : Bytes) : segments (47 :: q) = segments q :=
  segments_append_slash [] q

/-- Slashes at the beginning make no segments. -/
theorem segments_dropWhile (p : Bytes) : segments (p.dropWhile (· = 47)) = segments p := by
  induction p with
  | nil => rfl
  | cons b p ih =>
      rw [List.dropWhile_cons]
      split_ifs with hb
      · obtain rfl : b = 47 := of_decide_eq_true hb
        rw [ih, segments_slash]
      · rfl

/-- Slashes at the end make no segments. -/
theorem segments_rdropWhile (p : Bytes) : segments (p.rdropWhile (· = 47)) = segments p := by
  induction p using List.reverseRecOn with
  | nil => rfl
  | append_singleton p b ih =>
      by_cases hb : b = 47
      · rw [List.rdropWhile_concat_pos _ _ _ (by simpa using hb), ih, hb,
          segments_append_slash, segments_nil, List.append_nil]
      · rw [List.rdropWhile_concat_neg _ _ _ (by simpa using hb)]

theorem segments_intercalate {ss : List Bytes} (h : ∀ s ∈ ss, (47 : UInt8) ∉ s) :
    segments (47 :: [47].intercalate ss) = ss.filter (· ≠ []) := by
  rw [segments_slash]
  by_cases hss : ss = []
  · subst hss
    rfl
  · rw [segments, List.splitOn_intercalate _ h hss]

theorem not_mem_segments {p s : Bytes} (h : s ∈ segments p) : (47 : UInt8) ∉ s := by
  have hsplit : ∀ p : Bytes, ∀ s ∈ p.splitOn 47, (47 : UInt8) ∉ s := by
    intro p
    induction p with
    | nil => simp
    | cons b p ih =>
        intro s hs
        rw [List.splitOn_cons_eq_if_modifyHead] at hs
        split_ifs at hs with hb
        · rcases List.mem_cons.mp hs with rfl | hs
          · exact List.not_mem_nil
          · exact ih s hs
        · obtain ⟨t, ts, ht⟩ := List.exists_cons_of_ne_nil (List.splitOn_ne_nil (47 : UInt8) p)
          rw [ht, List.modifyHead_cons] at hs
          rcases List.mem_cons.mp hs with rfl | hs
          · rw [List.mem_cons, not_or]
            exact ⟨fun heq => hb (beq_iff_eq.mpr heq.symm), ih t (by simp [ht])⟩
          · exact ih s (by simp [ht, hs])
  exact hsplit p s (List.mem_filter.mp h).1

/-! ### Setting a path -/

/-- How `.` can be spelled. -/
def dotSpellings : List Bytes := [[46], [37, 50, 101], [37, 50, 69]]

def IsSingleDot (s : Bytes) : Prop := s ∈ dotSpellings

def IsDoubleDot (s : Bytes) : Prop := ∃ a ∈ dotSpellings, ∃ b ∈ dotSpellings, s = a ++ b

instance (s : Bytes) : Decidable (IsSingleDot s) := inferInstanceAs (Decidable (_ ∈ _))

instance (s : Bytes) : Decidable (IsDoubleDot s) :=
  inferInstanceAs (Decidable (∃ a ∈ dotSpellings, ∃ b ∈ dotSpellings, s = a ++ b))

/-- What stands for dots: a path that ends in them ends in a slash. -/
def behindDots (rest : List Bytes) : List Bytes := if rest = [] then [[]] else []

/-- Resolve dots, behind the segments that are kept. -/
def resolveDots : List Bytes → List Bytes → List Bytes
  | kept, [] => kept
  | kept, s :: rest =>
      if IsDoubleDot s then resolveDots (kept.dropLast ++ behindDots rest) rest
      else if IsSingleDot s then resolveDots (kept ++ behindDots rest) rest
      else resolveDots (kept ++ [s]) rest

/-- `set_path` of an `http` URL: the path that it has then. -/
def setPath (set : EncodeSet) (path : Bytes) : Bytes :=
  let path := path.filter fun b => !isTabOrNewline b
  let path := if path.head?.any isSeparator then path.tail else path
  47 :: [47].intercalate (resolveDots [] ((path.splitOnP isSeparator).map set.encode))

/-- A segment that is kept. -/
structure EncodeSet.Keeps (set : EncodeSet) (s : Bytes) : Prop where
  leaves : set.Leaves s
  no_separator : ∀ b ∈ s, isSeparator b = false
  not_single : ¬IsSingleDot s
  not_double : ¬IsDoubleDot s

instance (set : EncodeSet) (s : Bytes) : Decidable (set.Keeps s) :=
  haveI : Decidable (∀ b ∈ s, isSeparator b = false) := List.decidableBAll _ s
  decidable_of_iff
    (set.Leaves s ∧ (∀ b ∈ s, isSeparator b = false) ∧ ¬IsSingleDot s ∧ ¬IsDoubleDot s)
    ⟨fun h => ⟨h.1, h.2.1, h.2.2.1, h.2.2.2⟩, fun h => ⟨h.1, h.2, h.3, h.4⟩⟩

/-- A path whose segments are kept. -/
def EncodeSet.KeepsPath (set : EncodeSet) (path : Bytes) : Prop := ∀ s ∈ segments path, set.Keeps s

instance (set : EncodeSet) (path : Bytes) : Decidable (set.KeepsPath path) :=
  inferInstanceAs (Decidable (∀ s ∈ segments path, set.Keeps s))

theorem keepsPath_append {p q : Bytes} :
    set.KeepsPath (p ++ 47 :: q) ↔ set.KeepsPath p ∧ set.KeepsPath q := by
  simp only [EncodeSet.KeepsPath, segments_append_slash, List.mem_append, or_imp, forall_and]

theorem eq_nil_of_mem_behindDots {rest : List Bytes} {s : Bytes} (h : s ∈ behindDots rest) :
    s = [] := by
  rw [behindDots] at h
  split_ifs at h
  · exact List.mem_singleton.mp h
  · exact absurd h List.not_mem_nil

theorem mem_resolveDots {kept ss : List Bytes} {s : Bytes} (h : s ∈ resolveDots kept ss) :
    s ∈ kept ∨ s = [] ∨ (s ∈ ss ∧ ¬IsSingleDot s ∧ ¬IsDoubleDot s) := by
  induction ss generalizing kept with
  | nil => exact Or.inl h
  | cons t ss ih =>
      have hrest : ∀ {more : List Bytes}, s ∈ resolveDots more ss →
          (s ∈ more → s ∈ kept ∨ s = [] ∨ (s ∈ t :: ss ∧ ¬IsSingleDot s ∧ ¬IsDoubleDot s)) →
          s ∈ kept ∨ s = [] ∨ (s ∈ t :: ss ∧ ¬IsSingleDot s ∧ ¬IsDoubleDot s) := by
        intro more hs hmore
        rcases ih hs with hs | hs | ⟨hs, hnot⟩
        · exact hmore hs
        · exact Or.inr (Or.inl hs)
        · exact Or.inr (Or.inr ⟨List.mem_cons_of_mem _ hs, hnot⟩)
      rw [resolveDots] at h
      split_ifs at h with hdouble hsingle
      · refine hrest h fun hs => ?_
        rcases List.mem_append.mp hs with hs | hs
        · exact Or.inl ((List.dropLast_sublist _).subset hs)
        · exact Or.inr (Or.inl (eq_nil_of_mem_behindDots hs))
      · refine hrest h fun hs => ?_
        rcases List.mem_append.mp hs with hs | hs
        · exact Or.inl hs
        · exact Or.inr (Or.inl (eq_nil_of_mem_behindDots hs))
      · refine hrest h fun hs => ?_
        rcases List.mem_append.mp hs with hs | hs
        · exact Or.inl hs
        · obtain rfl := List.mem_singleton.mp hs
          exact Or.inr (Or.inr ⟨List.mem_cons_self, hsingle, hdouble⟩)

theorem resolveDots_eq {kept ss : List Bytes}
    (h : ∀ s ∈ ss, ¬IsSingleDot s ∧ ¬IsDoubleDot s) : resolveDots kept ss = kept ++ ss := by
  induction ss generalizing kept with
  | nil => rw [resolveDots, List.append_nil]
  | cons s ss ih =>
      obtain ⟨hsingle, hdouble⟩ := h s List.mem_cons_self
      rw [resolveDots]
      simp only [if_neg hdouble, if_neg hsingle]
      rw [ih fun t ht => h t (List.mem_cons_of_mem _ ht), List.append_assoc, List.singleton_append]

/-- The parts between separators have none. -/
theorem not_separator_of_mem_splitOnP {p s : Bytes} (h : s ∈ p.splitOnP isSeparator) {b : UInt8}
    (hb : b ∈ s) : isSeparator b = false := by
  induction p generalizing s with
  | nil =>
      rw [List.splitOnP_nil, List.mem_singleton] at h
      rw [h] at hb
      exact absurd hb List.not_mem_nil
  | cons c p ih =>
      rw [List.splitOnP_cons_eq_if_modifyHead] at h
      split_ifs at h with hc
      · rcases List.mem_cons.mp h with rfl | h
        · exact absurd hb List.not_mem_nil
        · exact ih h hb
      · obtain ⟨t, ts, ht⟩ := List.exists_cons_of_ne_nil (List.splitOnP_ne_nil isSeparator p)
        rw [ht, List.modifyHead_cons] at h
        rcases List.mem_cons.mp h with rfl | h
        · rcases List.mem_cons.mp hb with rfl | hb
          · simpa using hc
          · exact ih (by simp [ht]) hb
        · exact ih (by simp [ht, h]) hb

theorem mem_of_mem_splitOnP {p s : Bytes} (h : s ∈ p.splitOnP isSeparator) {b : UInt8}
    (hb : b ∈ s) : b ∈ p := by
  induction p generalizing s with
  | nil =>
      rw [List.splitOnP_nil, List.mem_singleton] at h
      rwa [h] at hb
  | cons c p ih =>
      rw [List.splitOnP_cons_eq_if_modifyHead] at h
      split_ifs at h with hc
      · rcases List.mem_cons.mp h with rfl | h
        · exact absurd hb List.not_mem_nil
        · exact List.mem_cons_of_mem _ (ih h hb)
      · obtain ⟨t, ts, ht⟩ := List.exists_cons_of_ne_nil (List.splitOnP_ne_nil isSeparator p)
        rw [ht, List.modifyHead_cons] at h
        rcases List.mem_cons.mp h with rfl | h
        · rcases List.mem_cons.mp hb with rfl | hb
          · exact List.mem_cons_self
          · exact List.mem_cons_of_mem _ (ih (by simp [ht]) hb)
        · exact List.mem_cons_of_mem _ (ih (by simp [ht, h]) hb)

/-- **A path that has been set** is one that is kept. -/
theorem setPath_keeps (path : Bytes) : set.KeepsPath (setPath set path) := by
  intro s hs
  rw [setPath] at hs
  set bare := path.filter fun b => !isTabOrNewline b with hbare
  set rooted := if bare.head?.any isSeparator then bare.tail else bare with hrooted
  have hplain : ∀ b ∈ rooted, isTabOrNewline b = false := by
    have hb : ∀ b ∈ bare, isTabOrNewline b = false := fun b hb => by
      simpa using (List.mem_filter.mp hb).2
    intro b hin
    rw [hrooted] at hin
    split_ifs at hin
    · exact hb b (List.mem_of_mem_tail hin)
    · exact hb b hin
  have hencoded : ∀ t ∈ (rooted.splitOnP isSeparator).map set.encode,
      set.Leaves t ∧ ∀ b ∈ t, isSeparator b = false := by
    intro t ht
    obtain ⟨u, hu, rfl⟩ := List.mem_map.mp ht
    have hbyte : ∀ b ∈ set.encode u, set.encodes b = false ∧ isTabOrNewline b = false ∧
        isSeparator b = false := by
      intro b hb
      obtain ⟨hset, hin⟩ := set.mem_encode hb
      refine ⟨hset, ?_⟩
      rcases hin with hin | hin
      · exact ⟨hplain b (mem_of_mem_splitOnP hu hin), not_separator_of_mem_splitOnP hu hin⟩
      · exact hin
    exact ⟨fun b hb => ⟨(hbyte b hb).1, (hbyte b hb).2.1⟩, fun b hb => (hbyte b hb).2.2⟩
  have hresolved : ∀ t ∈ resolveDots [] ((rooted.splitOnP isSeparator).map set.encode),
      t = [] ∨ set.Keeps t := by
    intro t ht
    rcases mem_resolveDots ht with ht | rfl | ⟨ht, hsingle, hdouble⟩
    · exact absurd ht List.not_mem_nil
    · exact Or.inl rfl
    · exact Or.inr ⟨(hencoded t ht).1, (hencoded t ht).2, hsingle, hdouble⟩
  have hslash : ∀ t ∈ resolveDots [] ((rooted.splitOnP isSeparator).map set.encode),
      (47 : UInt8) ∉ t := by
    intro t ht h47
    rcases hresolved t ht with rfl | hkeeps
    · exact absurd h47 List.not_mem_nil
    · exact absurd (hkeeps.no_separator 47 h47) (by decide)
  rw [segments_intercalate hslash, List.mem_filter] at hs
  exact (hresolved s hs.1).resolve_left (by simpa using hs.2)

theorem splitOnP_eq_splitOn {p : Bytes} (h : ∀ b ∈ p, isSeparator b = true → b = 47) :
    p.splitOnP isSeparator = p.splitOn 47 := by
  induction p with
  | nil => rfl
  | cons b p ih =>
      rw [List.splitOnP_cons_eq_if_modifyHead, List.splitOn_cons_eq_if_modifyHead,
        ih fun c hc => h c (List.mem_cons_of_mem _ hc)]
      by_cases hb : b = 47
      · rw [if_pos (by rw [hb]; rfl), if_pos (beq_iff_eq.mpr hb)]
      · rw [if_neg fun hsep => hb (h b List.mem_cons_self hsep),
          if_neg fun heq => hb (beq_iff_eq.mp heq)]

/-- Each byte of a path that is no slash is in one of its segments. -/
theorem exists_segment {p : Bytes} {b : UInt8} (hb : b ∈ p) (hne : b ≠ 47) :
    ∃ s ∈ segments p, b ∈ s := by
  have hsplit : ∃ s ∈ p.splitOn 47, b ∈ s := by
    induction p with
    | nil => exact absurd hb List.not_mem_nil
    | cons c p ih =>
        rw [List.splitOn_cons_eq_if_modifyHead]
        split_ifs with hc
        · rcases List.mem_cons.mp hb with rfl | hb
          · exact absurd (beq_iff_eq.mp hc) hne
          · obtain ⟨s, hs, hin⟩ := ih hb
            exact ⟨s, List.mem_cons_of_mem _ hs, hin⟩
        · obtain ⟨t, ts, ht⟩ := List.exists_cons_of_ne_nil (List.splitOn_ne_nil (47 : UInt8) p)
          rw [ht, List.modifyHead_cons]
          rcases List.mem_cons.mp hb with rfl | hb
          · exact ⟨_, List.mem_cons_self, List.mem_cons_self⟩
          · obtain ⟨s, hs, hin⟩ := ih hb
            rw [ht] at hs
            rcases List.mem_cons.mp hs with rfl | hs
            · exact ⟨_, List.mem_cons_self, List.mem_cons_of_mem _ hin⟩
            · exact ⟨s, List.mem_cons_of_mem _ hs, hin⟩
  obtain ⟨s, hs, hin⟩ := hsplit
  refine ⟨s, List.mem_filter.mpr ⟨hs, ?_⟩, hin⟩
  exact decide_eq_true (List.ne_nil_of_mem hin)

/-- **A path that is kept** is what is set. -/
theorem setPath_eq {p : Bytes} (h : set.KeepsPath (47 :: p)) : setPath set (47 :: p) = 47 :: p := by
  have hkept : ∀ b ∈ p, b ≠ 47 → set.encodes b = false ∧ isTabOrNewline b = false ∧
      isSeparator b = false := by
    intro b hb hne
    obtain ⟨s, hs, hin⟩ := exists_segment (List.mem_cons_of_mem 47 hb) hne
    obtain ⟨hset, htab⟩ := (h s hs).leaves b hin
    exact ⟨hset, htab, (h s hs).no_separator b hin⟩
  have hbare : ((47 :: p).filter fun b => !isTabOrNewline b) = 47 :: p := by
    refine List.filter_eq_self.mpr fun b hb => ?_
    rcases List.mem_cons.mp hb with rfl | hb
    · rfl
    · by_cases hslash : b = 47
      · rw [hslash]
        rfl
      · rw [(hkept b hb hslash).2.1]
        rfl
  have hsplit : p.splitOnP isSeparator = p.splitOn 47 := by
    refine splitOnP_eq_splitOn fun b hb hsep => ?_
    by_contra hne
    rw [(hkept b hb hne).2.2] at hsep
    exact Bool.false_ne_true hsep
  have hpart : ∀ s ∈ p.splitOn 47, s = [] ∨ set.Keeps s := by
    intro s hs
    refine or_iff_not_imp_left.mpr fun hne => h s ?_
    rw [segments_slash, segments, List.mem_filter]
    exact ⟨hs, decide_eq_true hne⟩
  have hencode : (p.splitOn 47).map set.encode = p.splitOn 47 := by
    refine (List.map_congr_left fun s hs => ?_).trans (List.map_id _)
    rcases hpart s hs with rfl | hs
    · rfl
    · exact set.encode_eq fun b hb => (hs.leaves b hb).1
  have hdots : ∀ s ∈ p.splitOn 47, ¬IsSingleDot s ∧ ¬IsDoubleDot s := by
    intro s hs
    rcases hpart s hs with rfl | hs
    · decide
    · exact ⟨hs.not_single, hs.not_double⟩
  rw [setPath, hbare]
  have hroot : (47 :: p : Bytes).head?.any isSeparator = true := rfl
  simp only [hroot, if_true, List.tail_cons]
  rw [hsplit, hencode, resolveDots_eq hdots, List.nil_append, List.intercalate_splitOn]

/-- **A path keeps its segments** if and only if it is kept. -/
theorem segments_setPath_iff {p : Bytes} :
    segments (setPath set (47 :: p)) = segments (47 :: p) ↔ set.KeepsPath (47 :: p) := by
  constructor
  · intro h s hs
    rw [← h] at hs
    exact setPath_keeps _ s hs
  · intro h
    rw [setPath_eq h]

end UrlPath
