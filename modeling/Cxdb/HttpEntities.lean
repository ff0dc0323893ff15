import Cxdb.FsPaths
import Cxdb.InheritedRoots
import Cxdb.Registry
import Cxdb.UrlComponents

/-!
# Names in Paths of the HTTP API

Bundles and types of the registry and files of a snapshot are addressed by their names, as segments
of the path of a request. The server compares the segments as they stand in the URL with the names;
it never decodes them. So a name that has to be percent-encoded cannot be reached, and a path whose
segments have escapes can reach an entity whose name is spelled like them.

The `url` crate is left open as far as the set of bytes goes that it percent-encodes in a path. The
other routes are left out, and of a response the headers.

## Main results

* `HttpState.request_ok_iff`: what a request is answered with is looked up under the names that
  stand between the slashes.
* `HttpState.reaches_path_iff`: when the encoded path of an entity reaches it.
* `paths_address_iff`: all entities are addressed by their paths, and no path reaches another entity
  than it names, if and only if all names are plain.
-/

open ByteFormat UrlPath

namespace Cxdb

/-! ### The routes -/

/-- The state behind the routes. The walk of `get_fs_root` ends for every turn. -/
structure HttpState where
  registry : Registry
  stores : Stores
  zstd : Zstd
  readValue : Bytes → Except String MsgpackValue
  pack : Bytes
  fsRoot : UInt64 → Option Hash
  fsRoot_is : ∀ turnId, stores.FsRootIs turnId (fsRoot turnId)

/-- What is found. -/
inductive HttpFound where
  | bundle (raw : Bytes)
  | typeVersion (spec : TypeVersionSpec)
  | file (content : Bytes) (entry : FsStore.TreeEntry)
  | listing (entries : List FsStore.TreeEntry)

namespace HttpState

variable (m : HttpState)

/-- The blobs behind snapshots. -/
def trees : FsStore.TreeSource where
  zstd := m.zstd
  readValue := m.readValue
  store := m.stores.blobStore
  pack := m.pack

def noSnapshotError : StoreError := .notFound "no fs snapshot for turn"

/-- `get_fs_file`. -/
def getFsFile (turnId : UInt64) (path : String) :
    Except StoreError (Bytes × FsStore.TreeEntry) :=
  match m.fsRoot turnId with
  | none => .error noSnapshotError
  | some fsRoot => m.trees.getFileAtPath fsRoot path

/-- `list_fs_entries`. -/
def listFsEntries (turnId : UInt64) (path : String) :
    Except StoreError (List FsStore.TreeEntry) :=
  match m.fsRoot turnId with
  | none => .error noSnapshotError
  | some fsRoot => do
    let (treeHash, isDir) ← m.trees.resolvePath fsRoot path
    if !isDir then throw (.invalidInput ("path is not a directory: " ++ path))
    m.trees.loadTreeEntries treeHash

/-- The route of the files of a snapshot. -/
def getFs (turnId : UInt64) (path : String) : Except StoreError HttpFound :=
  if path = "" then .error (.invalidInput "empty file path")
  else
    match m.getFsFile turnId path with
    | .ok (content, entry) => .ok (.file content entry)
    | .error (.invalidInput msg) =>
        -- The path is a directory, or goes on below a file.
        if "directory".toList <:+: msg.toList then (m.listFsEntries turnId path).map .listing
        else .error (.invalidInput msg)
    | .error e => .error e

/-- The `match` on the segments of a `GET` request, as far as names are looked up. -/
def get (segments : List String) : Option (Except StoreError HttpFound) :=
  match segments with
  | ["v1", "registry", "bundles", bundleId] => some <|
      match m.registry.bundles.lookup bundleId with
      | none => .error (.notFound "bundle")
      | some bundle => .ok (.bundle bundle)
  | ["v1", "registry", "types", typeId, "versions", version] => some <|
      match Decimal.parseU32 version with
      | none => .error (.invalidInput "invalid version")
      | some version =>
        match m.registry.getTypeVersion typeId version with
        | none => .error (.notFound "type version")
        | some spec => .ok (.typeVersion spec)
  | "v1" :: "turns" :: turnId :: "fs" :: part :: rest => some <|
      match Decimal.parseU64 turnId with
      | none => .error (.invalidInput "invalid turn_id")
      | some turnId => m.getFs turnId ("/".intercalate (part :: rest))
  | _ => none

end HttpState

/-- The segments of a request target as strings. -/
def segmentTexts (set : EncodeSet) (target : Bytes) : Option (List String) :=
  (pathSegments set target).mapM fromUtf8

/-- A `GET` request. -/
def HttpState.request (m : HttpState) (set : EncodeSet) (target : Bytes) :
    Option (Except StoreError HttpFound) :=
  (segmentTexts set target).bind m.get

/-! ### Entities -/

/-- What has a name: a bundle, a version of a type, a file in the snapshot of a turn. -/
inductive HttpEntity where
  | bundle (bundleId : String)
  | typeVersion (typeId : String) (version : UInt32)
  | file (turnId : UInt64) (parts : List String)
  deriving DecidableEq

namespace HttpEntity

/-- The names that clients have chosen. -/
def names : HttpEntity → List String
  | bundle bundleId => [bundleId]
  | typeVersion typeId _ => [typeId]
  | file _ parts => parts

/-- The components of its path. -/
def components : HttpEntity → List String
  | bundle bundleId => ["v1", "registry", "bundles", bundleId]
  | typeVersion typeId version =>
      ["v1", "registry", "types", typeId, "versions", Decimal.print version.toNat]
  | file turnId parts => "v1" :: "turns" :: Decimal.print turnId.toNat :: "fs" :: parts

/-- The path of the request for it, with every component percent-encoded. -/
def path (e : HttpEntity) : Bytes := pathOfComponents (e.components.map utf8Bytes)

/-- Empty parts of a file path and dots mean nothing. -/
def fileParts (parts : List String) : List String := parts.filter fun s => s ≠ "" ∧ s ≠ "."

/-- The entity that has these components. -/
def ofSegments : List String → Option HttpEntity
  | ["v1", "registry", "bundles", bundleId] => some (bundle bundleId)
  | ["v1", "registry", "types", typeId, "versions", version] =>
      (Decimal.parseU32 version).map (typeVersion typeId)
  | "v1" :: "turns" :: turnId :: "fs" :: part :: rest =>
      if fileParts (part :: rest) = [] then none
      else (Decimal.parseU64 turnId).map (file · (fileParts (part :: rest)))
  | _ => none

/-- **The entity that a path names**: its segments are decoded. -/
def NamedBy (set : EncodeSet) (target : Bytes) (e : HttpEntity) : Prop :=
  ((pathSegments set target).mapM fun s => (HttpPath.unescape s).bind fromUtf8).bind ofSegments =
    some e

/-- A name that stands for itself in a path. -/
def PlainName (name : String) : Prop :=
  (∀ b ∈ utf8Bytes name, isUnreserved b = true) ∧ name ≠ "." ∧ name ≠ ".."

/-- **The names are plain**: letters, digits and `-._~` alone, and no dots; no part of a file path
is empty. -/
def Plain : HttpEntity → Prop
  | bundle bundleId => PlainName bundleId
  | typeVersion typeId _ => PlainName typeId
  | file _ parts => ∀ part ∈ parts, PlainName part ∧ part ≠ ""

end HttpEntity

namespace HttpState

variable (m : HttpState)

/-- What is stored of an entity. -/
def Holds : HttpEntity → HttpFound → Prop
  | .bundle bundleId, .bundle raw => m.registry.bundles.lookup bundleId = some raw
  | .typeVersion typeId version, .typeVersion spec =>
      m.registry.getTypeVersion typeId version = some spec
  | .file turnId parts, .file content entry =>
      ∃ root hash, m.fsRoot turnId = some root ∧ m.trees.Reaches root parts entry hash ∧
        entry.kindEnum ≠ .directory ∧ m.trees.get hash = .ok content
  | _, _ => False

/-- The entity is there. -/
def Has (e : HttpEntity) : Prop := ∃ found, m.Holds e found

/-- **A request reaches an entity**: it is looked up under these names, and its content is the
response. -/
def Reaches (set : EncodeSet) (target : Bytes) (e : HttpEntity) : Prop :=
  ∃ found, m.request set target = some (.ok found) ∧ m.Holds e found ∧
    (segmentTexts set target).bind HttpEntity.ofSegments = some e

end HttpState

/-! ### Looking up -/

/-- `get_file_at_path` returns what the path reaches. -/
theorem FsStore.getFileAtPath_eq_ok_iff {b : FsStore.TreeSource} {root : Hash} {path : String}
    {content : Bytes} {entry : FsStore.TreeEntry} :
    b.getFileAtPath root path = .ok (content, entry) ↔
      ∃ hash, b.Reaches root (FsStore.pathParts path) entry hash ∧
        entry.kindEnum ≠ .directory ∧ b.get hash = .ok content := by
  rw [FsStore.TreeSource.getFileAtPath]
  cases hparts : FsStore.pathParts path with
  | nil =>
      constructor
      · intro h
        cases h
      · rintro ⟨hash, hreach, -⟩
        obtain ⟨part, rest, hnil, -⟩ := FsStore.exists_walk_of_reaches hreach
        cases hnil
  | cons part rest =>
      rw [FsStore.fileLoop_eq]
      constructor
      · intro h
        cases hwalk : b.walk root part rest with
        | error e =>
            rw [hwalk] at h
            cases h
        | ok found =>
            rw [hwalk] at h
            dsimp only [Except.bind] at h
            split at h
            · cases h
            next hdir =>
              cases hget : b.get found.2 with
              | error e =>
                  rw [hget] at h
                  cases h
              | ok bytes =>
                  rw [hget] at h
                  cases h
                  exact ⟨found.2, FsStore.walk_eq_ok_iff.mp hwalk, hdir, hget⟩
      · rintro ⟨hash, hreach, hdir, hget⟩
        rw [FsStore.walk_eq_ok_iff.mpr hreach]
        dsimp only [Except.bind]
        rw [if_neg hdir, hget]
        rfl

/-- Segments without slashes are the parts of the path that they are joined to. -/
theorem pathParts_intercalate {segments : List String} (hne : segments ≠ [])
    (hslash : ∀ s ∈ segments, '/' ∉ s.toList) :
    FsStore.pathParts ("/".intercalate segments) = HttpEntity.fileParts segments := by
  have hsplit : ("/".intercalate segments).toList.splitOn '/' = segments.map String.toList := by
    rw [String.toList_intercalate]
    refine List.splitOn_intercalate '/' (fun cs hcs => ?_) (by simpa using hne)
    obtain ⟨s, hs, rfl⟩ := List.mem_map.mp hcs
    exact hslash s hs
  have hid : (segments.map String.toList).map String.ofList = segments := by
    rw [List.map_map]
    exact (List.map_congr_left fun s _ => String.ofList_toList).trans (List.map_id segments)
  rw [FsStore.pathParts_eq, FsStore.partsBetween, hsplit, hid]
  rfl

namespace HttpState

variable {m : HttpState}

/-- The route of the files of a snapshot finds what their parts reach. -/
theorem getFs_eq_ok_iff {turnId : UInt64} {path : String} {found : HttpFound}
    (hfound : ∀ entries, found ≠ .listing entries) :
    m.getFs turnId path = .ok found ↔
      m.Holds (.file turnId (FsStore.pathParts path)) found := by
  rw [getFs, getFsFile]
  constructor
  · intro h
    split at h
    · cases h
    cases hroot : m.fsRoot turnId with
    | none =>
        rw [hroot] at h
        cases h
    | some root =>
        rw [hroot] at h
        dsimp only at h
        split at h
        next content entry hfile =>
          cases h
          obtain ⟨hash, hreach, hdir, hget⟩ := FsStore.getFileAtPath_eq_ok_iff.mp hfile
          exact ⟨root, hash, hroot, hreach, hdir, hget⟩
        next msg _ =>
          split at h
          · cases hlist : m.listFsEntries turnId path with
            | error e =>
                rw [hlist] at h
                cases h
            | ok entries =>
                rw [hlist] at h
                exact absurd (Except.ok.inj h).symm (hfound entries)
          · cases h
        · cases h
  · intro h
    cases found with
    | file content entry =>
        obtain ⟨root, hash, hroot, hreach, hdir, hget⟩ := h
        have hpath : path ≠ "" := by
          rintro rfl
          obtain ⟨part, rest, hparts, -⟩ := FsStore.exists_walk_of_reaches hreach
          rw [FsStore.pathParts_eq] at hparts
          simp at hparts
        rw [if_neg hpath, hroot]
        dsimp only
        rw [FsStore.getFileAtPath_eq_ok_iff.mpr ⟨hash, hreach, hdir, hget⟩]
    | bundle | typeVersion | listing => exact h.elim

/-- A path without parts is no file. -/
theorem not_holds_nil {turnId : UInt64} {found : HttpFound} : ¬m.Holds (.file turnId []) found := by
  intro h
  cases found with
  | file content entry =>
      obtain ⟨root, hash, -, hreach, -⟩ := h
      obtain ⟨part, rest, hparts, -⟩ := FsStore.exists_walk_of_reaches hreach
      cases hparts
  | bundle | typeVersion | listing => exact h

/-- **What the routes find** is what the entity holds that has these components. -/
theorem get_eq_ok_iff {segments : List String} (hslash : ∀ s ∈ segments, '/' ∉ s.toList)
    {found : HttpFound} (hfound : ∀ entries, found ≠ .listing entries) :
    m.get segments = some (.ok found) ↔
      ∃ e, HttpEntity.ofSegments segments = some e ∧ m.Holds e found := by
  rw [get.eq_def]
  split
  next bundleId =>
    rw [show HttpEntity.ofSegments ["v1", "registry", "bundles", bundleId] =
      some (.bundle bundleId) from rfl]
    simp only [Option.some.injEq, exists_eq_left']
    cases hbundle : m.registry.bundles.lookup bundleId with
    | none => cases found <;> simp [Holds, hbundle]
    | some bundle => cases found <;> simp [Holds, hbundle]
  next typeId version =>
    rw [show HttpEntity.ofSegments ["v1", "registry", "types", typeId, "versions", version] =
      (Decimal.parseU32 version).map (.typeVersion typeId) from rfl]
    cases hversion : Decimal.parseU32 version with
    | none => simp
    | some version =>
        simp only [Option.map_some, Option.some.injEq, exists_eq_left']
        cases hspec : m.registry.getTypeVersion typeId version with
        | none => cases found <;> simp [Holds, hspec]
        | some spec => cases found <;> simp [Holds, hspec]
  next turnId part rest =>
    have hrest : ∀ s ∈ part :: rest, '/' ∉ s.toList := fun s hs =>
      hslash s (List.mem_cons_of_mem _ (List.mem_cons_of_mem _ (List.mem_cons_of_mem _
        (List.mem_cons_of_mem _ hs))))
    rw [show HttpEntity.ofSegments ("v1" :: "turns" :: turnId :: "fs" :: part :: rest) =
      if HttpEntity.fileParts (part :: rest) = [] then none
      else (Decimal.parseU64 turnId).map (.file · (HttpEntity.fileParts (part :: rest))) from rfl]
    cases hturn : Decimal.parseU64 turnId with
    | none => simp
    | some turnId =>
        simp only [Option.some.injEq]
        rw [getFs_eq_ok_iff hfound, pathParts_intercalate (List.cons_ne_nil _ _) hrest]
        split
        next hnil => simp [hnil, not_holds_nil]
        next => simp
  next hbundle htype hfile =>
    have hnone : HttpEntity.ofSegments segments = none := by
      rw [HttpEntity.ofSegments.eq_def]
      split
      next bundleId => exact (hbundle bundleId rfl).elim
      next typeId version => exact (htype typeId version rfl).elim
      next turnId part rest => exact (hfile turnId part rest rfl).elim
      next => rfl
    simp [hnone]

end HttpState

/-! ### Texts in paths -/

/-- An ASCII byte of a text is one of its characters. -/
theorem exists_char_of_mem_utf8Bytes {s : String} {b : UInt8} (hb : b < 128)
    (h : b ∈ utf8Bytes s) : ∃ c ∈ s.toList, c.toNat = b.toNat := by
  rw [utf8Bytes_eq] at h
  obtain ⟨c, hc, hbc⟩ := List.mem_flatMap.mp h
  refine ⟨c, hc, ?_⟩
  have hlt : b.toNat < 128 := UInt8.lt_iff_toNat_lt.mp hb
  simp only [String.utf8EncodeChar] at hbc
  split_ifs at hbc
  all_goals
    simp only [List.mem_cons, List.not_mem_nil, or_false] at hbc
    rcases hbc with rfl | rfl | rfl | rfl
  all_goals
    rw [UInt8.toNat_ofNat'] at hlt ⊢
    change c.val.toNat = _
    omega

/-- And the other way round. -/
theorem mem_utf8Bytes_of_char {s : String} {c : Char} (hc : c.toNat < 128) (h : c ∈ s.toList) :
    UInt8.ofNat c.toNat ∈ utf8Bytes s := by
  rw [utf8Bytes_eq]
  refine List.mem_flatMap.mpr ⟨c, h, ?_⟩
  have hle : c.val.toNat ≤ 127 := Nat.le_of_lt_succ hc
  rw [String.utf8EncodeChar, if_pos hle]
  exact List.mem_singleton_self _

/-- A number is read from digits, behind a plus sign or none. -/
theorem mem_of_parseUint {bits n : ℕ} {s : String} (h : Decimal.parseUint bits s = some n)
    {c : Char} (hc : c ∈ s.toList) : c = '+' ∨ c.isDigit = true := by
  rw [Decimal.parseUint] at h
  split_ifs at h with hdigits
  have hall := List.all_eq_true.mp hdigits.2.1
  split at hall
  next rest hplus =>
    rw [hplus] at hc
    rcases List.mem_cons.mp hc with rfl | hc
    · exact Or.inl rfl
    · exact Or.inr (hall c hc)
  next => exact Or.inr (hall c hc)

/-- Neither a number that is read nor an unreserved name has escapes. -/
theorem not_mem_of_parseUint {bits n : ℕ} {s : String} (h : Decimal.parseUint bits s = some n) :
    (37 : UInt8) ∉ utf8Bytes s := by
  intro hmem
  obtain ⟨c, hc, hval⟩ := exists_char_of_mem_utf8Bytes (by decide) hmem
  obtain rfl : c = '%' := Char.toNat_inj.mp hval
  rcases mem_of_parseUint h hc with h | h
  · exact absurd h (by decide)
  · exact absurd h (by decide)

set_option maxRecDepth 2000 in
/-- The digits of a number are unreserved. -/
theorem unreserved_print (n : ℕ) : ∀ b ∈ utf8Bytes (Decimal.print n), isUnreserved b = true := by
  intro b hb
  rw [utf8Bytes_eq, Decimal.print, String.toList_ofList] at hb
  obtain ⟨c, hc, hbc⟩ := List.mem_flatMap.mp hb
  obtain ⟨d, hd, rfl⟩ := List.mem_map.mp hc
  exact (by decide : ∀ d < 10, ∀ b ∈ String.utf8EncodeChar (Nat.digitChar d),
    isUnreserved b = true) d (F64.digits_padded_lt (List.mem_reverse.mp hd)) b hbc

/-- A printed number is no dot. -/
theorem print_ne_dot (n : UInt64) :
    Decimal.print n.toNat ≠ "." ∧ Decimal.print n.toNat ≠ ".." := by
  have hread := Decimal.parseU64_print n
  have hdot : Decimal.parseU64 "." = none := by decide
  have hdots : Decimal.parseU64 ".." = none := by decide
  constructor
  · intro h
    rw [h, hdot] at hread
    cases hread
  · intro h
    rw [h, hdots] at hread
    cases hread

theorem mapM_fromUtf8_eq_some_iff {bss : List Bytes} {ss : List String} :
    bss.mapM fromUtf8 = some ss ↔ bss = ss.map utf8Bytes := by
  induction bss generalizing ss with
  | nil => cases ss <;> simp
  | cons bs bss ih =>
      rw [List.mapM_cons]
      constructor
      · intro h
        obtain ⟨s, hs, h⟩ := Option.bind_eq_some_iff.mp h
        obtain ⟨rest, hrest, h⟩ := Option.bind_eq_some_iff.mp h
        obtain rfl := Option.some.inj h
        rw [List.map_cons, utf8Bytes_of_fromUtf8 hs, ← ih.mp hrest]
      · intro h
        cases ss with
        | nil => cases h
        | cons s ss =>
            rw [List.map_cons, List.cons.injEq] at h
            rw [h.1, fromUtf8_utf8Bytes, ih.mpr h.2]
            rfl

/-- The segments as strings are those of the URL. -/
theorem segmentTexts_eq_some_iff {set : EncodeSet} {target : Bytes} {segments : List String} :
    segmentTexts set target = some segments ↔
      pathSegments set target = segments.map utf8Bytes :=
  mapM_fromUtf8_eq_some_iff

theorem slash_not_mem_segmentTexts {set : EncodeSet} {target : Bytes} {segments : List String}
    (h : segmentTexts set target = some segments) : ∀ s ∈ segments, '/' ∉ s.toList := by
  intro s hs hslash
  have hmem : utf8Bytes s ∈ pathSegments set target := by
    rw [segmentTexts_eq_some_iff.mp h]
    exact List.mem_map_of_mem hs
  exact pathSegments_slash set target hmem (mem_utf8Bytes_of_char (by decide) hslash)

namespace HttpState

variable {m : HttpState} {set : EncodeSet} {target : Bytes}

theorem Holds.ne_listing {e : HttpEntity} {found : HttpFound} (h : m.Holds e found) :
    ∀ entries, found ≠ .listing entries := by
  rintro entries rfl
  cases e <;> exact h

/-- **What a request is answered with** is looked up under the names between the slashes. -/
theorem request_ok_iff {found : HttpFound} (hfound : ∀ entries, found ≠ .listing entries) :
    m.request set target = some (.ok found) ↔
      ∃ e, (segmentTexts set target).bind HttpEntity.ofSegments = some e ∧ m.Holds e found := by
  rw [request]
  cases htexts : segmentTexts set target with
  | none => simp
  | some segments => exact get_eq_ok_iff (slash_not_mem_segmentTexts htexts) hfound

/-- What a request reaches. -/
theorem reaches_iff {e : HttpEntity} :
    m.Reaches set target e ↔
      (segmentTexts set target).bind HttpEntity.ofSegments = some e ∧ m.Has e := by
  constructor
  · rintro ⟨found, -, hholds, htexts⟩
    exact ⟨htexts, found, hholds⟩
  · rintro ⟨htexts, found, hholds⟩
    exact ⟨found, (request_ok_iff hholds.ne_listing).mpr ⟨e, htexts, hholds⟩, hholds, htexts⟩

end HttpState

/-! ### Components -/

namespace HttpEntity

/-- What the segments are that an entity is looked up under. -/
theorem ofSegments_eq_some {segments : List String} {e : HttpEntity}
    (h : ofSegments segments = some e) :
    match e with
    | bundle bundleId => segments = ["v1", "registry", "bundles", bundleId]
    | typeVersion typeId version => ∃ text, Decimal.parseU32 text = some version ∧
        segments = ["v1", "registry", "types", typeId, "versions", text]
    | file turnId parts => ∃ text rest, Decimal.parseU64 text = some turnId ∧
        segments = "v1" :: "turns" :: text :: "fs" :: rest ∧ fileParts rest = parts ∧
          parts ≠ [] := by
  rw [ofSegments.eq_def] at h
  split at h
  · obtain rfl := Option.some.inj h
    rfl
  · obtain ⟨version, hversion, rfl⟩ := Option.map_eq_some_iff.mp h
    exact ⟨_, hversion, rfl⟩
  · split at h
    · cases h
    next hparts =>
      obtain ⟨turnId, hturn, rfl⟩ := Option.map_eq_some_iff.mp h
      exact ⟨_, _, hturn, rfl, rfl, hparts⟩
  · cases h

/-- Its names are among them. -/
theorem mem_segments_of_mem_names {segments : List String} {e : HttpEntity}
    (h : ofSegments segments = some e) {name : String} (hname : name ∈ e.names) :
    name ∈ segments := by
  have hinv := ofSegments_eq_some h
  cases e with
  | bundle bundleId =>
      obtain rfl := List.mem_singleton.mp hname
      rw [show segments = _ from hinv]
      simp
  | typeVersion typeId version =>
      obtain rfl := List.mem_singleton.mp hname
      obtain ⟨text, -, rfl⟩ := hinv
      simp
  | file turnId parts =>
      obtain ⟨text, rest, -, rfl, rfl, -⟩ := hinv
      have hrest : name ∈ rest := List.mem_of_mem_filter hname
      simp [hrest]

theorem plainName_print (n : UInt64) : PlainName (Decimal.print n.toNat) :=
  ⟨unreserved_print n.toNat, print_ne_dot n⟩

set_option maxRecDepth 2000 in
/-- What is no name in a path is plain. -/
theorem mem_names_or_plain {e : HttpEntity} {c : String} (hc : c ∈ e.components) :
    c ∈ e.names ∨ PlainName c := by
  have hfixed : ∀ c ∈ ["v1", "registry", "bundles", "types", "versions", "turns", "fs"],
      (∀ b ∈ utf8Bytes c, isUnreserved b = true) ∧ c ≠ "." ∧ c ≠ ".." := by
    decide
  have hplain : ∀ c ∈ ["v1", "registry", "bundles", "types", "versions", "turns", "fs"],
      c ∈ e.names ∨ PlainName c := fun c hc => Or.inr (hfixed c hc)
  simp only [List.forall_mem_cons] at hplain
  obtain ⟨hv1, hregistry, hbundles, htypes, hversions, hturns, hfs, -⟩ := hplain
  cases e with
  | bundle bundleId =>
      simp only [components, List.mem_cons, List.not_mem_nil, or_false] at hc
      rcases hc with rfl | rfl | rfl | rfl
      · exact hv1
      · exact hregistry
      · exact hbundles
      · exact Or.inl List.mem_cons_self
  | typeVersion typeId version =>
      simp only [components, List.mem_cons, List.not_mem_nil, or_false] at hc
      rcases hc with rfl | rfl | rfl | rfl | rfl | rfl
      · exact hv1
      · exact hregistry
      · exact htypes
      · exact Or.inl List.mem_cons_self
      · exact hversions
      · exact Or.inr (plainName_print version.toUInt64)
  | file turnId parts =>
      simp only [components, List.mem_cons] at hc
      rcases hc with rfl | rfl | rfl | rfl | hc
      · exact hv1
      · exact hturns
      · exact Or.inr (plainName_print turnId)
      · exact hfs
      · exact Or.inl hc

theorem components_ne_nil (e : HttpEntity) : e.components.map utf8Bytes ≠ [] := by
  cases e <;> simp [components]

theorem eq_dot {name : String} (h : utf8Bytes name = [46]) : name = "." :=
  utf8Bytes_injective (h.trans (by decide))

theorem eq_dots {name : String} (h : utf8Bytes name = [46, 46]) : name = ".." :=
  utf8Bytes_injective (h.trans (by decide))

variable {set : EncodeSet}

/-- Without dots among the names, the segments of the path are the encoded components. -/
theorem pathSegments_path (hset : set.LeavesUnreserved) {e : HttpEntity}
    (hdots : ∀ name ∈ e.names, name ≠ "." ∧ name ≠ "..") :
    pathSegments set e.path = e.components.map fun c => escape (utf8Bytes c) := by
  rw [path, pathSegments_eq hset e.components_ne_nil, List.map_map]
  · rfl
  · intro bs hbs
    obtain ⟨c, hc, rfl⟩ := List.mem_map.mp hbs
    have hne : c ≠ "." ∧ c ≠ ".." := by
      rcases mem_names_or_plain hc with hc | hc
      · exact hdots c hc
      · exact hc.2
    exact ⟨fun h => hne.1 (eq_dot (eq_dot_of_escape h)),
      fun h => hne.2 (eq_dots (eq_dots_of_escape h))⟩

/-- The components of an entity with plain names are those of the entity. -/
theorem ofSegments_components {e : HttpEntity} (hplain : e.Plain)
    (hparts : ∀ turnId, e ≠ file turnId []) : ofSegments e.components = some e := by
  cases e with
  | bundle bundleId => rfl
  | typeVersion typeId version =>
      have hversion : Decimal.parseU32 (Decimal.print version.toNat) = some version := by
        rw [Decimal.parseU32, Decimal.parseUint_print version.toNat_lt, Option.map_some,
          UInt32.ofNat_toNat]
      exact (congrArg (Option.map (typeVersion typeId)) hversion)
  | file turnId parts =>
      obtain ⟨part, rest, rfl⟩ : ∃ part rest, parts = part :: rest := by
        cases parts with
        | nil => exact absurd rfl (hparts turnId)
        | cons part rest => exact ⟨part, rest, rfl⟩
      have hall : fileParts (part :: rest) = part :: rest :=
        List.filter_eq_self.mpr fun s hs => by
          simp [(hplain s hs).2, (hplain s hs).1.2.1]
      have hread := Decimal.parseU64_print turnId
      rw [components, ofSegments, hall, if_neg (List.cons_ne_nil _ _), hread]
      rfl

theorem plain_of_names {e : HttpEntity} (h : e.Plain) : ∀ name ∈ e.names, PlainName name := by
  cases e with
  | bundle bundleId => exact List.forall_mem_singleton.mpr h
  | typeVersion typeId version => exact List.forall_mem_singleton.mpr h
  | file turnId parts => exact fun name hname => (h name hname).1

/-- The components of an entity with plain names are plain. -/
theorem plain_components {e : HttpEntity} (h : e.Plain) : ∀ c ∈ e.components, PlainName c :=
  fun c hc => (mem_names_or_plain hc).elim (plain_of_names h c) id

end HttpEntity

namespace HttpState

open HttpEntity

variable {m : HttpState} {set : EncodeSet} {target : Bytes}

/-- **The path of an entity reaches it** if and only if its names are plain. -/
theorem reaches_path_iff (hset : set.LeavesUnreserved) {e : HttpEntity} (hhas : m.Has e) :
    m.Reaches set e.path e ↔ e.Plain := by
  rw [reaches_iff, and_iff_left hhas]
  constructor
  · intro h
    obtain ⟨segments, htexts, hof⟩ := Option.bind_eq_some_iff.mp h
    have hsegments := segmentTexts_eq_some_iff.mp htexts
    have hdots : ∀ name ∈ e.names, name ≠ "." ∧ name ≠ ".." := by
      intro name hname
      have hmem : utf8Bytes name ∈ pathSegments set e.path := by
        rw [hsegments]
        exact List.mem_map_of_mem (mem_segments_of_mem_names hof hname)
      obtain ⟨hsingle, hdouble⟩ := pathSegments_dots set e.path hmem
      constructor
      · rintro rfl
        exact hsingle (by decide)
      · rintro rfl
        exact hdouble (by decide)
    rw [pathSegments_path hset hdots] at hsegments
    have hinv := ofSegments_eq_some hof
    have hplain : ∀ name ∈ e.names, escape (utf8Bytes name) = utf8Bytes name → PlainName name :=
      fun name hname hself => ⟨escape_eq_self_iff.mp hself, hdots name hname⟩
    cases e with
    | bundle bundleId =>
        rw [show segments = _ from hinv] at hsegments
        simp only [components, List.map_cons, List.cons.injEq] at hsegments
        exact hplain bundleId List.mem_cons_self hsegments.2.2.2.1
    | typeVersion typeId version =>
        obtain ⟨text, -, rfl⟩ := hinv
        simp only [components, List.map_cons, List.cons.injEq] at hsegments
        exact hplain typeId List.mem_cons_self hsegments.2.2.2.1
    | file turnId parts =>
        obtain ⟨text, rest, -, rfl, hrest, -⟩ := hinv
        simp only [components, List.map_cons, List.cons.injEq] at hsegments
        obtain ⟨-, -, -, -, hparts⟩ := hsegments
        -- There are as many parts as segments, so none was left out.
        have hall : fileParts rest = rest := by
          refine List.filter_sublist.eq_of_length ?_
          have hlength := congrArg List.length hparts
          rw [List.length_map, List.length_map] at hlength
          rw [← hlength, ← hrest]
          rfl
        rw [hall] at hrest
        subst hrest
        intro part hpart
        refine ⟨hplain part hpart (List.map_inj_left.mp hparts part hpart), ?_⟩
        rw [← hall] at hpart
        have hkept := (List.mem_filter.mp hpart).2
        simp only [decide_eq_true_eq] at hkept
        exact hkept.1
  · intro hplain
    have hparts : ∀ turnId, e ≠ file turnId [] := by
      rintro turnId rfl
      obtain ⟨found, hholds⟩ := hhas
      exact not_holds_nil hholds
    have hself : (e.components.map fun c => escape (utf8Bytes c)) = e.components.map utf8Bytes :=
      List.map_congr_left fun c hc => escape_eq_self (plain_components hplain c hc).1
    rw [segmentTexts_eq_some_iff.mpr ((pathSegments_path hset fun name hname =>
      (plain_of_names hplain name hname).2).trans hself), Option.bind_some,
      ofSegments_components hplain hparts]

/-- Segments without escapes name what they spell. -/
theorem namedBy_of_segmentTexts {segments : List String}
    (htexts : segmentTexts set target = some segments)
    (hpercent : ∀ s ∈ segments, (37 : UInt8) ∉ utf8Bytes s) {e : HttpEntity}
    (hof : ofSegments segments = some e) : e.NamedBy set target := by
  rw [NamedBy, segmentTexts_eq_some_iff.mp htexts]
  have hdecode : (segments.map utf8Bytes).mapM
      (fun s => (HttpPath.unescape s).bind fromUtf8) = some segments := by
    clear htexts hof
    induction segments with
    | nil => rfl
    | cons s segments ih =>
        rw [List.map_cons, List.mapM_cons,
          HttpPath.unescape_eq_self (hpercent s List.mem_cons_self), Option.bind_some,
          fromUtf8_utf8Bytes, ih fun t ht => hpercent t (List.mem_cons_of_mem s ht)]
        rfl
  rw [hdecode, Option.bind_some, hof]

/-- **A path names what it reaches** if that has plain names. -/
theorem Reaches.namedBy {e : HttpEntity} (h : m.Reaches set target e) (hplain : e.Plain) :
    e.NamedBy set target := by
  obtain ⟨segments, htexts, hof⟩ := Option.bind_eq_some_iff.mp (reaches_iff.mp h).1
  have hname : ∀ name, PlainName name → (37 : UInt8) ∉ utf8Bytes name := fun name hname h37 =>
    absurd (hname.1 37 h37) (by decide)
  have hfixed : ∀ c ∈ ["v1", "registry", "bundles", "types", "versions", "turns", "fs", "", "."],
      (37 : UInt8) ∉ utf8Bytes c := by
    decide
  simp only [List.forall_mem_cons] at hfixed
  obtain ⟨hv1, hregistry, hbundles, htypes, hversions, hturns, hfs, hempty, hdot, -⟩ := hfixed
  refine namedBy_of_segmentTexts htexts (fun s hs => ?_) hof
  have hinv := ofSegments_eq_some hof
  cases e with
  | bundle bundleId =>
      rw [show segments = _ from hinv] at hs
      simp only [List.mem_cons, List.not_mem_nil, or_false] at hs
      rcases hs with rfl | rfl | rfl | rfl
      · exact hv1
      · exact hregistry
      · exact hbundles
      · exact hname _ hplain
  | typeVersion typeId version =>
      obtain ⟨text, hversion, rfl⟩ := hinv
      obtain ⟨n, hn, -⟩ := Option.map_eq_some_iff.mp hversion
      simp only [List.mem_cons, List.not_mem_nil, or_false] at hs
      rcases hs with rfl | rfl | rfl | rfl | rfl | rfl
      · exact hv1
      · exact hregistry
      · exact htypes
      · exact hname _ hplain
      · exact hversions
      · exact not_mem_of_parseUint hn
  | file turnId parts =>
      obtain ⟨text, rest, hturn, rfl, rfl, -⟩ := hinv
      obtain ⟨n, hn, -⟩ := Option.map_eq_some_iff.mp hturn
      simp only [List.mem_cons] at hs
      rcases hs with rfl | rfl | rfl | rfl | hs
      · exact hv1
      · exact hturns
      · exact not_mem_of_parseUint hn
      · exact hfs
      -- A segment that is no part of the file path is empty or a dot.
      · by_cases hpart : s ∈ fileParts rest
        · exact hname s (hplain s hpart).1
        · have hskipped : s = "" ∨ s = "." := by
            by_contra hne
            rw [not_or] at hne
            exact hpart (List.mem_filter.mpr ⟨hs, decide_eq_true hne⟩)
          rcases hskipped with rfl | rfl
          · exact hempty
          · exact hdot

end HttpState

/-- **Paths address entities.** The path of every entity reaches it, and every path names what it
reaches, if and only if all names are plain. -/
theorem paths_address_iff (set : EncodeSet) (hset : set.LeavesUnreserved) (m : HttpState) :
    ((∀ e, m.Has e → m.Reaches set e.path e) ∧
        ∀ target : Bytes, target.head? = some 47 → ∀ e, m.Reaches set target e →
          e.NamedBy set target) ↔
      ∀ e, m.Has e → e.Plain := by
  constructor
  · rintro ⟨hreach, -⟩ e hhas
    exact (HttpState.reaches_path_iff hset hhas).mp (hreach e hhas)
  · intro hplain
    refine ⟨fun e hhas => (HttpState.reaches_path_iff hset hhas).mpr (hplain e hhas),
      fun target _ e hreach => hreach.namedBy (hplain e (HttpState.reaches_iff.mp hreach).2)⟩

/-! ### One bundle -/

/-- The bytes that the URL standard percent-encodes in a path. -/
def standardPathSet : EncodeSet where
  encodes b := b ≤ 32 ∨ 127 ≤ b ∨ b ∈ [34, 35, 60, 62, 63, 96, 123, 125]
  percent := by decide
  digit := of_digits (by decide)

set_option maxRecDepth 2000 in
theorem standardPathSet_leaves : standardPathSet.LeavesUnreserved := by
  have hall : ∀ n : Fin 256, isUnreserved (UInt8.ofNat n) = true →
      standardPathSet.encodes (UInt8.ofNat n) = false := by
    decide
  intro b
  have hb := hall ⟨b.toNat, b.toNat_lt⟩
  rwa [UInt8.ofNat_toNat] at hb

/-- A server with one bundle and nothing else. -/
def oneBundle (bundleId : String) : HttpState where
  registry := { Registry.empty with bundles := Finmap.singleton bundleId [1] }
  stores := Store.empty.stores
  zstd := Crates.plain.zstd
  readValue _ := .error ""
  pack := []
  fsRoot _ := none
  fsRoot_is _ := .of_unknown Finmap.notMem_empty rfl

theorem oneBundle_has {bundleId : String} {e : HttpEntity} :
    (oneBundle bundleId).Has e ↔ e = .bundle bundleId := by
  constructor
  · rintro ⟨found, h⟩
    cases e with
    | bundle id =>
        cases found with
        | bundle raw =>
            have hlookup : (Finmap.singleton bundleId [1] : HashMap String Bytes).lookup id =
                some raw := h
            have hmem := Finmap.mem_of_lookup_eq_some hlookup
            rw [(Finmap.mem_singleton _ _ _).mp hmem]
        | _ => exact h.elim
    | typeVersion typeId version =>
        cases found with
        | typeVersion spec =>
            simp [HttpState.Holds, oneBundle, Registry.getTypeVersion, Registry.empty] at h
        | _ => exact h.elim
    | file turnId parts =>
        cases found with
        | file content entry =>
            obtain ⟨root, hash, hroot, -⟩ := h
            cases hroot
        | _ => exact h.elim
  · rintro rfl
    exact ⟨.bundle [1], Finmap.lookup_singleton_eq⟩

set_option maxRecDepth 2000 in
/-- A bundle whose name is plain. -/
theorem paths_address_plain :
    (∀ e, (oneBundle "a-b").Has e → (oneBundle "a-b").Reaches standardPathSet e.path e) ∧
      ∀ target : Bytes, target.head? = some 47 → ∀ e,
        (oneBundle "a-b").Reaches standardPathSet target e → e.NamedBy standardPathSet target :=
  (paths_address_iff standardPathSet standardPathSet_leaves (oneBundle "a-b")).mpr fun e he => by
    rw [oneBundle_has.mp he]
    exact (by decide : (∀ b ∈ utf8Bytes "a-b", isUnreserved b = true) ∧ "a-b" ≠ "." ∧
      "a-b" ≠ "..")

/-- **A name with a space** is not reached by its path. -/
theorem space_not_addressed :
    ¬∀ (set : EncodeSet), set.LeavesUnreserved → ∀ m : HttpState,
      (∀ e, m.Has e → m.Reaches set e.path e) ∧
        ∀ target : Bytes, target.head? = some 47 → ∀ e, m.Reaches set target e →
          e.NamedBy set target := by
  intro h
  have hhas : (oneBundle "a b").Has (.bundle "a b") := oneBundle_has.mpr rfl
  have hreaches := (h standardPathSet standardPathSet_leaves (oneBundle "a b")).1 _ hhas
  have hplain := (HttpState.reaches_path_iff standardPathSet_leaves hhas).mp hreaches
  exact absurd (hplain.1 32 (by decide)) (by decide)

/-- **A path reaches another bundle** than it names, where the name of that is spelled like an
escape. -/
theorem escape_reaches_other :
    (oneBundle "a%20b").Reaches standardPathSet (utf8Bytes "/v1/registry/bundles/a%20b")
        (.bundle "a%20b") ∧
      HttpEntity.NamedBy standardPathSet (utf8Bytes "/v1/registry/bundles/a%20b")
        (.bundle "a b") := by
  refine ⟨HttpState.reaches_iff.mpr ⟨?_, oneBundle_has.mpr rfl⟩, ?_⟩
  · decide
  · rw [HttpEntity.NamedBy]
    decide

end Cxdb
