import Cxdb.ChunkedBody

/-!
# Paths of Requests

The path of a request as Go's `net/url` and `net/http` treat it: it is sent escaped, and a
`ServeMux` looks for a pattern segment by segment, each segment unescaped for itself. A path
with empty segments, `.` or `..` is answered with a redirect to the clean one.

## Main results

* `RequestUrl.path_eq`: the path is what stands between the slashes of the escaped path,
  unescaped.
* `serveMux_handler`: what is known of a path when a handler gets its request.
-/

open ByteFormat

namespace HttpPath

/-! ### Escapes -/

/-- `PathUnescape`; `none` at a `%` without two digits behind it. -/
def unescape : Bytes → Option Bytes
  | [] => some []
  | b :: bs =>
      if b = 37 then
        match bs with
        | x :: y :: rest =>
            match ChunkedBody.hexValue x, ChunkedBody.hexValue y with
            | some hi, some lo => (unescape rest).map (UInt8.ofNat (16 * hi + lo) :: ·)
            | _, _ => none
        | _ => none
      else (unescape bs).map (b :: ·)

theorem unescape_cons {b : UInt8} (hb : b ≠ 37) (bs : Bytes) :
    unescape (b :: bs) = (unescape bs).map (b :: ·) := by
  rw [unescape.eq_def]
  exact if_neg hb

theorem unescape_escape (x y : UInt8) (bs : Bytes) :
    unescape (37 :: x :: y :: bs) =
      (ChunkedBody.hexValue x).bind fun hi => (ChunkedBody.hexValue y).bind fun lo =>
        (unescape bs).map (UInt8.ofNat (16 * hi + lo) :: ·) := by
  rw [unescape.eq_def]
  simp only [if_pos]
  cases ChunkedBody.hexValue x <;> cases ChunkedBody.hexValue y <;> rfl

/-- A slash is never part of an escape. -/
theorem unescape_slash (as bs : Bytes) :
    unescape (as ++ 47 :: bs) =
      (unescape as).bind fun p => (unescape bs).map fun q => p ++ 47 :: q := by
  have hslash : ChunkedBody.hexValue 47 = none := by decide
  induction h : as.length using Nat.strongRecOn generalizing as with
  | ind n ih =>
      cases as with
      | nil =>
          rw [List.nil_append, unescape_cons (by decide)]
          rfl
      | cons a as =>
          by_cases ha : a = 37
          · subst ha
            match as with
            | [] => cases bs <;> simp [unescape, hslash]
            | [x] =>
                simp only [List.cons_append, List.nil_append, unescape_escape, hslash]
                cases ChunkedBody.hexValue x <;> simp [unescape]
            | x :: y :: as =>
                simp only [List.cons_append, unescape_escape]
                rw [ih as.length (by simp only [← h, List.length_cons]; omega) as rfl]
                cases ChunkedBody.hexValue x <;> cases ChunkedBody.hexValue y <;>
                  cases unescape as <;> cases unescape bs <;> rfl
          · rw [List.cons_append, unescape_cons ha, unescape_cons ha,
              ih as.length (by simp only [← h, List.length_cons]; omega) as rfl]
            cases unescape as <;> cases unescape bs <;> rfl

/-- The path of a request: as it is sent, and unescaped. -/
structure RequestUrl where
  escapedPath : Bytes
  path : Bytes
  decodes : unescape escapedPath = some path

/-- `pathUnescape` of a segment. -/
def unescapeSegment (s : Bytes) : Bytes := (unescape s).getD s

theorem unescape_intercalate {ss : List Bytes} {p : Bytes}
    (h : unescape ([47].intercalate ss) = some p) :
    p = [47].intercalate (ss.map unescapeSegment) := by
  induction ss generalizing p with
  | nil => exact (Option.some.inj h).symm
  | cons s ss ih =>
      cases ss with
      | nil =>
          rw [List.intercalate_singleton] at h
          rw [List.map_singleton, List.intercalate_singleton, unescapeSegment, h]
          rfl
      | cons s' ss =>
          rw [List.intercalate_cons_cons, List.append_assoc, List.singleton_append,
            unescape_slash] at h
          obtain ⟨p₁, h₁, hrest⟩ := Option.bind_eq_some_iff.mp h
          obtain ⟨p₂, h₂, rfl⟩ := Option.map_eq_some_iff.mp hrest
          rw [List.map_cons, List.map_cons, List.intercalate_cons_cons, ← List.map_cons,
            ← ih h₂, unescapeSegment, h₁, List.append_assoc]
          rfl

/-- The segments of an escaped path, unescaped. -/
def segments (escapedPath : Bytes) : List Bytes :=
  ((escapedPath.splitOn 47).map unescapeSegment).tail

/-- **The path stands between the slashes.** -/
theorem RequestUrl.path_eq (u : RequestUrl) (h : u.escapedPath.head? = some 47) :
    segments u.escapedPath ≠ [] ∧ u.path = 47 :: [47].intercalate (segments u.escapedPath) := by
  obtain ⟨rest, hrest⟩ := List.head?_eq_some_iff.mp h
  have hsplit : u.escapedPath.splitOn 47 = [] :: rest.splitOn 47 := by
    rw [hrest]
    exact List.splitOn_append_cons_self [] rest
  have hne : (rest.splitOn 47).map unescapeSegment ≠ [] := by
    simp [List.splitOn_ne_nil]
  have hdecodes := u.decodes
  have hjoin : [47].intercalate (u.escapedPath.splitOn 47) = u.escapedPath :=
    List.intercalate_splitOn 47
  rw [← hjoin] at hdecodes
  rw [unescape_intercalate hdecodes, segments, hsplit, List.map_cons, List.tail_cons,
    List.intercalate_cons_of_ne_nil hne]
  exact ⟨hne, rfl⟩

/-! ### Clean paths -/

/-- The segments that `path.Clean` keeps of a rooted path. -/
def cleanSegments (ss : List Bytes) : List Bytes :=
  ss.foldl (fun kept s =>
    if s = [] ∨ s = [46] then kept
    else if s = [46, 46] then kept.dropLast
    else kept ++ [s]) []

/-- `cleanPath`. -/
def cleanPath (p : Bytes) : Bytes :=
  let rooted := if p.head? = some 47 then p else 47 :: p
  let clean := 47 :: [47].intercalate (cleanSegments (rooted.splitOn 47))
  if rooted.getLast? = some 47 ∧ clean ≠ [47] then clean ++ [47] else clean

theorem cleanPath_head (p : Bytes) : (cleanPath p).head? = some 47 := by
  rw [cleanPath]
  generalize (if p.head? = some 47 then p else 47 :: p) = rooted
  split <;> rfl

/-! ### Multiplexers -/

/-- A pattern: a path, or all paths below one. -/
structure Pattern where
  segments : List Bytes
  subtree : Bool

/-- The pattern matches these segments. -/
def Pattern.Matches (p : Pattern) (ss : List Bytes) : Prop :=
  if p.subtree then p.segments <+: ss ∧ p.segments ≠ ss else p.segments = ss

instance (p : Pattern) (ss : List Bytes) : Decidable (p.Matches ss) :=
  inferInstanceAs (Decidable (if p.subtree then _ else _))

/-- What a multiplexer does with a request. -/
inductive MuxAnswer (H : Type) where
  | handler (h : H)
  | redirect (location : Bytes)
  | notFound

variable {H : Type}

/-- The first route that matches; the routes stand in the order of precedence. -/
def findRoute (routes : List (Pattern × H)) (ss : List Bytes) : Option (Pattern × H) :=
  routes.find? fun r => r.1.Matches ss

/-- `ServeMux`: redirect to the path with a slash behind it if only that one is a pattern, or
to the clean path; else choose a handler. -/
def serveMux (routes : List (Pattern × H)) (escapedPath : Bytes) : MuxAnswer H :=
  let path := cleanPath escapedPath
  let ss := segments path
  if path.getLast? ≠ some 47 ∧ (∀ r ∈ findRoute routes ss, r.1.subtree = true) ∧
      (∃ r ∈ routes, r.1.subtree = true ∧ r.1.segments = ss) then
    .redirect (path ++ [47])
  else if path ≠ escapedPath then .redirect path
  else
    match findRoute routes ss with
    | some r => .handler r.2
    | none => .notFound

/-- **A handler gets its request** by a pattern that matches the segments of its path, which
is clean. -/
theorem serveMux_handler {routes : List (Pattern × H)} {u : RequestUrl} {h : H}
    (hserve : serveMux routes u.escapedPath = .handler h) :
    cleanPath u.escapedPath = u.escapedPath ∧
      u.path = 47 :: [47].intercalate (segments u.escapedPath) ∧
      ∃ p, findRoute routes (segments u.escapedPath) = some (p, h) ∧
        p.Matches (segments u.escapedPath) := by
  rw [serveMux] at hserve
  split at hserve
  · cases hserve
  split at hserve
  · cases hserve
  next hclean =>
  rw [not_not] at hclean
  rw [hclean] at hserve
  split at hserve
  next r hr =>
    obtain rfl := MuxAnswer.handler.inj hserve
    have hhead := cleanPath_head u.escapedPath
    rw [hclean] at hhead
    exact ⟨hclean, (u.path_eq hhead).2, r.1, hr, by simpa using List.find?_some hr⟩
  · cases hserve

/-- A path that is not clean is redirected. -/
theorem serveMux_redirect (routes : List (Pattern × H)) {escapedPath : Bytes}
    (h : cleanPath escapedPath ≠ escapedPath) :
    ∃ location, serveMux routes escapedPath = .redirect location := by
  rw [serveMux]
  simp only [if_pos h]
  split
  · exact ⟨_, rfl⟩
  · exact ⟨_, rfl⟩

end HttpPath
