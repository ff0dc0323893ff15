import Cxdb.HttpPath
import Cxdb.UrlPaths

/-!
# Components of URL Paths

A name is put into a URL path with percent-encoding: every byte of it that is not unreserved
becomes an escape. Parsing the URL keeps the escapes, so the segments of the path are the encoded
names, except that the names `.` and `..` are resolved.

## Main results

* `HttpPath.unescape_escape_eq`: unescaping gives the name back.
* `escape_eq_self_iff`: a name that is its own encoding is unreserved.
* `pathSegments_components`: the segments of a path that is made of encoded names.
* `pathSegments_eq`: they are the encoded names, if none of them is a dot.
-/

namespace UrlPath

open ByteFormat

/-! ### Encoding a component -/

/-- A byte that stands for itself in every part of a URL: a letter, a digit, or one of `-._~`. -/
def isUnreserved (b : UInt8) : Bool :=
  48 ≤ b ∧ b ≤ 57 ∨ 65 ≤ b ∧ b ≤ 90 ∨ 97 ≤ b ∧ b ≤ 122 ∨ b = 45 ∨ b = 46 ∨ b = 95 ∨ b = 126

/-- The percent-encoding of a byte. -/
def escapeByte (b : UInt8) : Bytes :=
  if isUnreserved b then [b] else [37, hexDigit (b / 16), hexDigit (b % 16)]

/-- The percent-encoding of a component. -/
def escape (bs : Bytes) : Bytes := bs.flatMap escapeByte

@[simp] theorem escape_nil : escape [] = [] := rfl

theorem escape_cons (b : UInt8) (bs : Bytes) : escape (b :: bs) = escapeByte b ++ escape bs :=
  List.flatMap_cons

theorem div_sixteen_lt (b : UInt8) : b / 16 < 16 := by
  have hb := b.toNat_lt
  rw [UInt8.lt_iff_toNat_lt, UInt8.toNat_div]
  change b.toNat / 16 < 16
  omega

theorem isUnreserved_hexDigit (n : UInt8) (h : n < 16) : isUnreserved (hexDigit n) = true :=
  of_digits (p := fun n => isUnreserved (hexDigit n) = true) (by decide) n h

/-- What escapes are made of. -/
theorem mem_escape {bs : Bytes} {b : UInt8} (h : b ∈ escape bs) :
    isUnreserved b = true ∨ b = 37 := by
  obtain ⟨c, -, hb⟩ := List.mem_flatMap.mp h
  rw [escapeByte] at hb
  split_ifs at hb with hc
  · rw [List.mem_singleton.mp hb]
    exact Or.inl hc
  · simp only [List.mem_cons, List.not_mem_nil, or_false] at hb
    rcases hb with rfl | rfl | rfl
    · exact Or.inr rfl
    · exact Or.inl (isUnreserved_hexDigit _ (div_sixteen_lt c))
    · exact Or.inl (isUnreserved_hexDigit _ (UInt8.mod_lt c (by decide)))

/-- An unreserved name is its own encoding. -/
theorem escape_eq_self {bs : Bytes} (h : ∀ b ∈ bs, isUnreserved b = true) : escape bs = bs := by
  induction bs with
  | nil => rfl
  | cons b bs ih =>
      rw [escape_cons, escapeByte, if_pos (h b List.mem_cons_self),
        ih fun c hc => h c (List.mem_cons_of_mem b hc), List.singleton_append]

theorem length_le_escape (bs : Bytes) : bs.length ≤ (escape bs).length := by
  induction bs with
  | nil => exact Nat.le_refl _
  | cons b bs ih =>
      rw [escape_cons, escapeByte, List.length_append, List.length_cons]
      split
      · rw [List.length_singleton]
        omega
      · simp only [List.length_cons]
        omega

/-- **A name that is its own encoding** is unreserved. -/
theorem escape_eq_self_iff {bs : Bytes} :
    escape bs = bs ↔ ∀ b ∈ bs, isUnreserved b = true := by
  refine ⟨fun h => ?_, escape_eq_self⟩
  induction bs with
  | nil => simp
  | cons b bs ih =>
      rw [escape_cons, escapeByte] at h
      split_ifs at h with hb
      · rw [List.singleton_append, List.cons.injEq] at h
        exact List.forall_mem_cons.mpr ⟨hb, ih h.2⟩
      · have hlength := congrArg List.length h
        have hle := length_le_escape bs
        simp only [List.length_append, List.length_cons, List.length_nil] at hlength
        omega

theorem escape_eq_nil_iff {bs : Bytes} : escape bs = [] ↔ bs = [] := by
  constructor
  · intro h
    have hle := length_le_escape bs
    rw [h] at hle
    exact List.length_eq_zero_iff.mp (Nat.le_zero.mp hle)
  · rintro rfl
    rfl

/-! ### Decoding -/

theorem hexValue_hexDigit (n : UInt8) (h : n < 16) :
    ChunkedBody.hexValue (hexDigit n) = some n.toNat :=
  of_digits (p := fun n => ChunkedBody.hexValue (hexDigit n) = some n.toNat) (by decide) n h

end UrlPath

namespace HttpPath

open ByteFormat UrlPath

/-- Without a percent sign there is nothing to unescape. -/
theorem unescape_eq_self {bs : Bytes} (h : (37 : UInt8) ∉ bs) : unescape bs = some bs := by
  induction bs with
  | nil => rfl
  | cons b bs ih =>
      rw [List.mem_cons, not_or] at h
      rw [unescape_cons (Ne.symm h.1), ih h.2]
      rfl

/-- **Unescaping** gives the name back. -/
theorem unescape_escape_eq (bs : Bytes) : unescape (escape bs) = some bs := by
  induction bs with
  | nil => rfl
  | cons b bs ih =>
      rw [escape_cons, escapeByte]
      split_ifs with hb
      · have hpercent : b ≠ 37 := by
          rintro rfl
          exact absurd hb (by decide)
        rw [List.singleton_append, unescape_cons hpercent, ih]
        rfl
      · have hvalue : UInt8.ofNat (16 * (b / 16).toNat + (b % 16).toNat) = b := by
          rw [UInt8.toNat_div, UInt8.toNat_mod]
          change UInt8.ofNat (16 * (b.toNat / 16) + b.toNat % 16) = b
          rw [Nat.div_add_mod, UInt8.ofNat_toNat]
        rw [List.cons_append, List.cons_append, List.cons_append, List.nil_append,
          unescape_escape, hexValue_hexDigit _ (div_sixteen_lt b),
          hexValue_hexDigit _ (UInt8.mod_lt b (by decide)), ih]
        simp only [Option.bind_some, Option.map_some, hvalue]

end HttpPath

namespace UrlPath

open ByteFormat

/-! ### Parsing -/

/-- The path that `Url::parse` makes of a target behind `http://localhost`: trailing spaces and
control characters are left out, and the path ends at a query or a fragment. -/
def parsePath (set : EncodeSet) (target : Bytes) : Bytes :=
  setPath set ((target.rdropWhile fun b => b ≤ 32).takeWhile fun b => b ≠ 35 ∧ b ≠ 63)

/-- `path_segments`. -/
def pathSegments (set : EncodeSet) (target : Bytes) : List Bytes :=
  (parsePath set target).tail.splitOn 47

/-- The path of a URL with these components. -/
def pathOfComponents (names : List Bytes) : Bytes := 47 :: [47].intercalate (names.map escape)

variable {set : EncodeSet}

/-- The set leaves what every URL leaves. -/
def EncodeSet.LeavesUnreserved (set : EncodeSet) : Prop :=
  ∀ b, isUnreserved b = true → set.encodes b = false

set_option maxRecDepth 2000 in
theorem unreserved_plain : ∀ b : UInt8, isUnreserved b = true ∨ b = 37 →
    32 < b ∧ b ≠ 35 ∧ b ≠ 63 ∧ b ≠ 47 ∧ isTabOrNewline b = false ∧ isSeparator b = false := by
  have hall : ∀ n : Fin 256, isUnreserved (UInt8.ofNat n) = true ∨ UInt8.ofNat n = 37 →
      32 < UInt8.ofNat n ∧ UInt8.ofNat n ≠ 35 ∧ UInt8.ofNat n ≠ 63 ∧ UInt8.ofNat n ≠ 47 ∧
        isTabOrNewline (UInt8.ofNat n) = false ∧ isSeparator (UInt8.ofNat n) = false := by
    decide
  intro b
  have hb := hall ⟨b.toNat, b.toNat_lt⟩
  rwa [UInt8.ofNat_toNat] at hb

theorem resolveDots_ne_nil {kept ss : List Bytes} (h : kept ≠ [] ∨ ss ≠ []) :
    resolveDots kept ss ≠ [] := by
  induction ss generalizing kept with
  | nil => simpa [resolveDots] using h
  | cons s ss ih =>
      have hmore : ∀ more : List Bytes, more ++ behindDots ss ≠ [] ∨ ss ≠ [] := by
        intro more
        by_cases hss : ss = []
        · exact Or.inl (by simp [behindDots, hss])
        · exact Or.inr hss
      rw [resolveDots]
      split_ifs
      · exact ih (hmore _)
      · exact ih (hmore _)
      · exact ih (Or.inl (by simp))

theorem mem_intercalate_slash {ss : List Bytes} {b : UInt8} (h : b ∈ [47].intercalate ss) :
    b = 47 ∨ ∃ s ∈ ss, b ∈ s := by
  induction ss with
  | nil => exact absurd h List.not_mem_nil
  | cons s ss ih =>
      cases ss with
      | nil =>
          rw [List.intercalate_singleton] at h
          exact Or.inr ⟨s, List.mem_cons_self, h⟩
      | cons s' ss =>
          rw [List.intercalate_cons_cons, List.append_assoc, List.mem_append, List.mem_append] at h
          rcases h with h | h | h
          · exact Or.inr ⟨s, List.mem_cons_self, h⟩
          · exact Or.inl (List.mem_singleton.mp h)
          · rcases ih h with h | ⟨t, ht, h⟩
            · exact Or.inl h
            · exact Or.inr ⟨t, List.mem_cons_of_mem s ht, h⟩

/-- Nothing of a path that is made of encoded names is left out. -/
theorem parsePath_components (hset : set.LeavesUnreserved) {names : List Bytes}
    (hne : names ≠ []) :
    parsePath set (pathOfComponents names) =
      47 :: [47].intercalate (resolveDots [] (names.map escape)) := by
  have hescaped : ∀ s ∈ names.map escape, ∀ b ∈ s, isUnreserved b = true ∨ b = 37 := by
    intro s hs b hb
    obtain ⟨name, -, rfl⟩ := List.mem_map.mp hs
    exact mem_escape hb
  have hbyte : ∀ b ∈ [47].intercalate (names.map escape),
      b = 47 ∨ isUnreserved b = true ∨ b = 37 := by
    intro b hb
    rcases mem_intercalate_slash hb with hb | ⟨s, hs, hb⟩
    · exact Or.inl hb
    · exact Or.inr (hescaped s hs b hb)
  have hplain : ∀ b ∈ pathOfComponents names,
      32 < b ∧ b ≠ 35 ∧ b ≠ 63 ∧ isTabOrNewline b = false := by
    intro b hb
    rcases List.mem_cons.mp hb with rfl | hb
    · decide
    · rcases hbyte b hb with rfl | hb
      · decide
      · obtain ⟨hspace, hhash, hquery, -, htab, -⟩ := unreserved_plain b hb
        exact ⟨hspace, hhash, hquery, htab⟩
  have htrim : (pathOfComponents names).rdropWhile (fun b => b ≤ 32) = pathOfComponents names := by
    refine List.rdropWhile_eq_self_iff.mpr fun hl => ?_
    have hlast := (hplain _ (List.getLast_mem hl)).1
    simpa using hlast
  have hcut : (pathOfComponents names).takeWhile (fun b => b ≠ 35 ∧ b ≠ 63) =
      pathOfComponents names :=
    List.takeWhile_eq_self_iff.mpr fun b hb =>
      decide_eq_true ⟨(hplain b hb).2.1, (hplain b hb).2.2.1⟩
  have hbare : (pathOfComponents names).filter (fun b => !isTabOrNewline b) =
      pathOfComponents names :=
    List.filter_eq_self.mpr fun b hb => by rw [(hplain b hb).2.2.2]; rfl
  have hroot : (pathOfComponents names).head?.any isSeparator = true := rfl
  have hsplit : (pathOfComponents names).tail.splitOnP isSeparator = names.map escape := by
    have hsep : ∀ b ∈ [47].intercalate (names.map escape), isSeparator b = true → b = 47 := by
      intro b hb htrue
      refine (hbyte b hb).resolve_right fun hb => ?_
      rw [(unreserved_plain b hb).2.2.2.2.2] at htrue
      exact Bool.false_ne_true htrue
    have hslash : ∀ s ∈ names.map escape, (47 : UInt8) ∉ s := fun s hs h47 =>
      (unreserved_plain 47 (hescaped s hs 47 h47)).2.2.2.1 rfl
    rw [pathOfComponents, List.tail_cons, splitOnP_eq_splitOn hsep,
      List.splitOn_intercalate _ hslash (by simpa using hne)]
  have hencode : (names.map escape).map set.encode = names.map escape := by
    refine (List.map_congr_left fun s hs => set.encode_eq fun b hb => ?_).trans (List.map_id _)
    rcases hescaped s hs b hb with hb | rfl
    · exact hset b hb
    · exact set.percent
  rw [parsePath, htrim, hcut, setPath, hbare]
  simp only [hroot, if_true]
  rw [hsplit, hencode]

/-- What dots leave of encoded names. -/
theorem mem_resolveDots_components {names : List Bytes} {s : Bytes}
    (h : s ∈ resolveDots [] (names.map escape)) :
    s = [] ∨ (s ∈ names.map escape ∧ ¬IsSingleDot s ∧ ¬IsDoubleDot s) := by
  rcases mem_resolveDots h with h | h
  · exact absurd h List.not_mem_nil
  · exact h

/-- **The segments of a path** that is made of encoded names. -/
theorem pathSegments_components (hset : set.LeavesUnreserved) {names : List Bytes}
    (hne : names ≠ []) :
    pathSegments set (pathOfComponents names) = resolveDots [] (names.map escape) := by
  have hslash : ∀ s ∈ resolveDots [] (names.map escape), (47 : UInt8) ∉ s := by
    intro s hs h47
    rcases mem_resolveDots_components hs with rfl | ⟨hs, -⟩
    · exact absurd h47 List.not_mem_nil
    · obtain ⟨name, -, rfl⟩ := List.mem_map.mp hs
      exact (unreserved_plain 47 (mem_escape h47)).2.2.2.1 rfl
  rw [pathSegments, parsePath_components hset hne, List.tail_cons,
    List.splitOn_intercalate _ hslash (resolveDots_ne_nil (Or.inr (by simpa using hne)))]

/-- **Without dots** they are the encoded names. -/
theorem pathSegments_eq (hset : set.LeavesUnreserved) {names : List Bytes} (hne : names ≠ [])
    (hdots : ∀ name ∈ names, ¬IsSingleDot (escape name) ∧ ¬IsDoubleDot (escape name)) :
    pathSegments set (pathOfComponents names) = names.map escape := by
  rw [pathSegments_components hset hne, resolveDots_eq, List.nil_append]
  intro s hs
  obtain ⟨name, hname, rfl⟩ := List.mem_map.mp hs
  exact hdots name hname

/-- No segment is a dot, however it is spelled. -/
theorem pathSegments_dots (set : EncodeSet) (target : Bytes) {s : Bytes}
    (h : s ∈ pathSegments set target) : ¬IsSingleDot s ∧ ¬IsDoubleDot s := by
  by_cases hs : s = []
  · subst hs
    decide
  have hmem : s ∈ segments (parsePath set target) := by
    obtain ⟨rest, hrest⟩ : ∃ rest, parsePath set target = 47 :: rest := ⟨_, rfl⟩
    rw [pathSegments, hrest] at h
    rw [hrest, segments_slash]
    exact List.mem_filter.mpr ⟨h, decide_eq_true hs⟩
  have hkeeps := setPath_keeps _ s hmem
  exact ⟨hkeeps.not_single, hkeeps.not_double⟩

/-- No segment has a slash. -/
theorem pathSegments_slash (set : EncodeSet) (target : Bytes) {s : Bytes}
    (h : s ∈ pathSegments set target) : (47 : UInt8) ∉ s := by
  by_cases hs : s = []
  · subst hs
    exact List.not_mem_nil
  obtain ⟨rest, hrest⟩ : ∃ rest, parsePath set target = 47 :: rest := ⟨_, rfl⟩
  rw [pathSegments, hrest] at h
  exact not_mem_segments (List.mem_filter.mpr ⟨h, decide_eq_true hs⟩)

/-- An encoded name is a dot only if the name is. -/
theorem eq_dot_of_escape {name : Bytes} (h : IsSingleDot (escape name)) : name = [46] := by
  have hname := HttpPath.unescape_escape_eq name
  have hdots : ∀ s ∈ dotSpellings, HttpPath.unescape s = some [46] := by decide
  rw [hdots _ h] at hname
  exact (Option.some.inj hname).symm

theorem eq_dots_of_escape {name : Bytes} (h : IsDoubleDot (escape name)) : name = [46, 46] := by
  have hname := HttpPath.unescape_escape_eq name
  have hdots : ∀ a ∈ dotSpellings, ∀ b ∈ dotSpellings,
      HttpPath.unescape (a ++ b) = some [46, 46] := by decide
  obtain ⟨a, ha, b, hb, hab⟩ := h
  rw [hab, hdots a ha b hb] at hname
  exact (Option.some.inj hname).symm

end UrlPath
