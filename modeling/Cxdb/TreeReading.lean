import Cxdb.ExceptLoops
import Cxdb.FsPaths
import Cxdb.SnapshotWalks
import Cxdb.TreeDecoders
import Cxdb.TreesAt

/-!
# Reading Tree Objects Back

A tree object is written by the Go or the Rust client, and read by the server and both clients.
Two kinds of it are not read back: that of a directory without entries, for which the Go client
writes `nil`, and one with a name that is not UTF-8, which only the Go client reads. Neither is on
the way to an entry with a name in UTF-8, so that the server resolves the paths of a snapshot.

## Main results

* `readBack_iff`: when a tree object is read back.
* `Snapshot.PathTo.reaches`: what a path leads to in a snapshot, it leads to on the server.
* `tree_objects_read_back`: both, for what a client captures.
* `empty_directory_unreadable`: the tree object of a directory without entries.
-/

open ByteFormat FaultyDisk

namespace Cxdb

/-! ### Tree objects -/

/-- A list of entries whose lengths the format has. -/
structure Packable (es : List TreeEntry) : Prop where
  count : es.length < 2 ^ 32
  names : ∀ e ∈ es, e.name.length < 2 ^ 32

/-- **A tree object is read back**: the clients write the same, and whichever wrote it, the server
and the clients read what was written. -/
structure ReadBack (libs : MsgpackLibraries) (b : FsStore.TreeSource) (es : List TreeEntry) :
    Prop where
  bytes : Go.serializeTree es = Rust.serializeTree es
  server : ∀ data ∈ [Go.serializeTree es, Rust.serializeTree es],
    (b.parseTreeEntries data).map (List.map FsStore.TreeEntry.fields) =
      .ok (es.map TreeEntry.fields)
  go : ∀ data ∈ [Go.serializeTree es, Rust.serializeTree es],
    Go.deserializeTree libs data = some (es.map TreeEntry.fields)
  rust : ∀ data ∈ [Go.serializeTree es, Rust.serializeTree es],
    Rust.deserializeTree libs data = some (es.map TreeEntry.fields)

/-- A loop over the values of a list, each of which comes to something. -/
theorem mapM_eq_some {α β γ : Type} {f : β → Option γ} {v : α → β} {g : α → γ} {xs : List α}
    (h : ∀ x ∈ xs, f (v x) = some (g x)) : (xs.map v).mapM f = some (xs.map g) := by
  induction xs with
  | nil => rfl
  | cons x xs ih =>
      rw [List.map_cons, List.mapM_cons, h x List.mem_cons_self,
        ih fun y hy => h y (List.mem_cons_of_mem _ hy)]
      rfl

theorem rmpvValue_nil : rmpvValue .nil = .nil := by
  rw [rmpvValue]

theorem rmpvValue_array (items : List Msgpack.Value) :
    rmpvValue (.array items) = .array (items.map rmpvValue) := by
  rw [rmpvValue]

/-- What the server has of a name in UTF-8, and of one that is not. -/
theorem served_fields (e : TreeEntry) :
    e.served.fields = e.fields ↔ ∃ s, e.name = utf8Bytes s := by
  have hfields : e.served.fields = e.fields ↔ utf8Bytes ((fromUtf8 e.name).getD "") = e.name := by
    constructor
    · intro h
      exact congrArg EntryFields.name h
    · intro h
      rw [FsStore.TreeEntry.fields, TreeEntry.fields, TreeEntry.served]
      exact congrArg (EntryFields.mk · e.kind.toU8 e.mode e.size e.hash.toList) h
  rw [hfields]
  constructor
  · exact fun h => ⟨_, h.symm⟩
  · rintro ⟨s, hs⟩
    rw [hs, fromUtf8_utf8Bytes, Option.getD_some]

section Libraries

variable {libs : MsgpackLibraries} (hlibs : libs.Lawful) {b : FsStore.TreeSource}
  (hb : b.readValue = libs.rmpv) {es : List TreeEntry} (hes : Packable es)

include hlibs hes

include hb in
/-- The server reads the entries. -/
theorem server_reads :
    b.parseTreeEntries (Rust.serializeTree es) = .ok (es.map TreeEntry.served) := by
  rw [FsStore.TreeSource.parseTreeEntries, hb,
    hlibs.rmpv (read_serializeTree hes.count hes.names), rmpvValue_array]
  refine ExceptLoops.mapM_ok_iff.mpr ?_
  rw [List.map_map, List.forall₂_map_left_iff, List.forall₂_map_right_iff, List.forall₂_same]
  exact fun e _ => parseTreeEntry_value e

theorem go_reads :
    Go.deserializeTree libs (Rust.serializeTree es) = some (es.map TreeEntry.fields) := by
  rw [Go.deserializeTree, hlibs.go (read_serializeTree hes.count hes.names)]
  exact mapM_eq_some fun e _ => Go.readEntry_value e

theorem rust_reads (hutf8 : ∀ e ∈ es, ∃ s, e.name = utf8Bytes s) :
    Rust.deserializeTree libs (Rust.serializeTree es) = some (es.map TreeEntry.fields) := by
  have hentries : Rust.readEntries (rmpvValue (.array (es.map TreeEntry.value))) =
      some (es.map TreeEntry.fields) := by
    rw [rmpvValue_array, List.map_map]
    refine mapM_eq_some fun e he => ?_
    obtain ⟨s, hs⟩ := hutf8 e he
    change Rust.readEntry (rmpvValue e.value) = _
    rw [Rust.readEntry_value, hs, fromUtf8_utf8Bytes, Option.map_some]
  have hserde := hlibs.serde (read_serializeTree hes.count hes.names)
  simp only [Rust.deserializeTree, hserde, Except.toOption, Option.bind_some, hentries]

include hb in
/-- **When a tree object is read back**: it has entries, and their names are UTF-8. -/
theorem readBack_iff :
    ReadBack libs b es ↔ es ≠ [] ∧ ∀ e ∈ es, ∃ s, e.name = utf8Bytes s := by
  have hgo : es ≠ [] → Go.serializeTree es = Rust.serializeTree es := fun hne => if_neg hne
  constructor
  · intro h
    have hne : es ≠ [] := by
      rintro rfl
      exact serializeTree_ne_nil [] h.bytes.symm
    refine ⟨hne, fun e he => ?_⟩
    have hserver := h.server (Rust.serializeTree es) (by simp)
    rw [server_reads hlibs hb hes] at hserver
    have hfields := Except.ok.inj hserver
    rw [List.map_map] at hfields
    exact (served_fields e).mp (List.map_inj_left.mp hfields e he)
  · rintro ⟨hne, hutf8⟩
    have hboth : ∀ data ∈ [Go.serializeTree es, Rust.serializeTree es],
        data = Rust.serializeTree es := by simp [hgo hne]
    refine ⟨hgo hne, fun data hdata => ?_, fun data hdata => ?_, fun data hdata => ?_⟩
    · rw [hboth data hdata, server_reads hlibs hb hes]
      refine congrArg Except.ok ?_
      rw [List.map_map]
      exact List.map_congr_left fun e he => (served_fields e).mpr (hutf8 e he)
    · rw [hboth data hdata, go_reads hlibs hes]
    · rw [hboth data hdata, rust_reads hlibs hes hutf8]

end Libraries

/-! ### Paths in a snapshot -/

/-- **A path leads to an entry** in the tree objects of a snapshot. -/
inductive Snapshot.PathTo (snap : Snapshot) : Hash → Path → TreeEntry → Prop
  | last {hash : Hash} {es : List TreeEntry} {te : TreeEntry} :
      snap.trees.lookup hash = some es → te ∈ es → snap.PathTo hash [te.name] te
  | into {hash : Hash} {es : List TreeEntry} {te target : TreeEntry} {p : Path} :
      snap.trees.lookup hash = some es → te ∈ es → te.kind = .directory →
      snap.PathTo te.hash p target → snap.PathTo hash (te.name :: p) target

/-- The parts of a path of names in UTF-8. -/
theorem partsBetween_of_text {parts : List String} (hne : parts ≠ [])
    (hnames : ∀ s ∈ parts, IsFileName (utf8Bytes s)) {path : String}
    (hpath : utf8Bytes path = Path.text (parts.map utf8Bytes)) :
    FsStore.partsBetween path.toList = parts := by
  have hencode : utf8Bytes = fun s : String => Utf8Chunks.encode s.toList := funext utf8Bytes_eq
  have hlist : path.toList = List.intercalate ['/'] (parts.map String.toList) := by
    have hcodes : Utf8Chunks.encode path.toList =
        Utf8Chunks.encode (List.intercalate ['/'] (parts.map String.toList)) := by
      rw [Utf8Chunks.encode_intercalate, List.map_map]
      rw [Path.text, hencode] at hpath
      exact hpath
    have hsame : path = String.ofList (List.intercalate ['/'] (parts.map String.toList)) := by
      refine utf8Bytes_injective ?_
      rw [utf8Bytes_eq, utf8Bytes_eq, String.toList_ofList]
      exact hcodes
    rw [hsame, String.toList_ofList]
  have hslash : ∀ cs ∈ parts.map String.toList, '/' ∉ cs := by
    intro cs hcs hmem
    obtain ⟨s, hs, rfl⟩ := List.mem_map.mp hcs
    refine (hnames s hs).no_separator ?_
    rw [utf8Bytes_eq]
    exact List.mem_flatMap.mpr ⟨'/', hmem, by decide⟩
  rw [FsStore.partsBetween, hlist,
    List.splitOn_intercalate _ hslash (by simpa using hne), List.map_map]
  have hid : parts.map (String.ofList ∘ String.toList) = parts :=
    (List.map_congr_left fun s _ => String.ofList_toList).trans (List.map_id parts)
  rw [hid]
  refine List.filter_eq_self.mpr fun s hs => ?_
  have hempty : s ≠ "" := by
    rintro rfl
    exact (hnames "" hs).ne_nil rfl
  have hdot : s ≠ "." := by
    rintro rfl
    exact (hnames "." hs).ne_dot rfl
  simp [hempty, hdot]

theorem kindEnum_served (te : TreeEntry) :
    te.served.kindEnum = .directory ↔ te.kind = .directory := by
  cases hkind : te.kind <;> simp [FsStore.TreeEntry.kindEnum, TreeEntry.served, hkind,
    EntryKind.toU8, FsStore.EntryKind.ofU8]

theorem hashArray_served (te : TreeEntry) : te.served.hashArray = .ok te.hash := by
  rw [FsStore.TreeEntry.hashArray, TreeEntry.served, dif_pos te.hash.toList_length]
  rfl

/-- The server finds an entry by its name, where no other one has that name. -/
theorem entryAt_served {b : FsStore.TreeSource} {hash : Hash} {es : List TreeEntry}
    (hload : b.loadTreeEntries hash = .ok (es.map TreeEntry.served)) {te : TreeEntry}
    (hte : te ∈ es) (hunique : ∀ te' ∈ es, te'.name = te.name → te' = te) {s : String}
    (hs : te.name = utf8Bytes s) (hne : s ≠ "") :
    b.entryAt hash s = .ok (te.served, te.hash) := by
  have hname : te.served.name = s := by
    rw [TreeEntry.served, hs, fromUtf8_utf8Bytes, Option.getD_some]
  have hfind : (es.map TreeEntry.served).find? (fun e => e.name = s) = some te.served := by
    cases hfind : (es.map TreeEntry.served).find? (fun e => e.name = s) with
    | none =>
        have hnone := List.find?_eq_none.mp hfind te.served (List.mem_map_of_mem hte)
        exact absurd (decide_eq_true hname) hnone
    | some e =>
        obtain ⟨te', hte', rfl⟩ := List.mem_map.mp (List.mem_of_find?_eq_some hfind)
        have hfound := List.find?_some hfind
        have hname' : te'.served.name = s := of_decide_eq_true hfound
        rw [TreeEntry.served] at hname'
        dsimp only at hname'
        cases hutf8 : fromUtf8 te'.name with
        | none =>
            rw [hutf8, Option.getD_none] at hname'
            exact absurd hname'.symm hne
        | some s' =>
            rw [hutf8, Option.getD_some] at hname'
            have hsame : te'.name = te.name := by
              rw [← utf8Bytes_of_fromUtf8 hutf8, hname', hs]
            rw [hunique te' hte' hsame]
  simp only [FsStore.TreeSource.entryAt, hload, bind, Except.bind, hfind, hashArray_served, pure,
    Except.pure]

/-- **What a path leads to in a snapshot**, it leads to on a server that has the tree objects. -/
theorem Snapshot.PathTo.reaches {snap : Snapshot} {b : FsStore.TreeSource}
    (hload : ∀ hash es, snap.trees.lookup hash = some es → es ≠ [] →
      b.loadTreeEntries hash = .ok (es.map TreeEntry.served))
    (hunique : ∀ hash es, snap.trees.lookup hash = some es →
      ∀ te ∈ es, ∀ te' ∈ es, te'.name = te.name → te' = te)
    {hash : Hash} {p : Path} {target : TreeEntry} (h : snap.PathTo hash p target)
    {parts : List String} (hp : p = parts.map utf8Bytes) (hparts : ∀ s ∈ parts, s ≠ "") :
    b.Reaches hash parts target.served target.hash := by
  induction h generalizing parts with
  | @last hash es te hes hte =>
      obtain ⟨s, rest, rfl⟩ := List.exists_cons_of_ne_nil (l := parts) (by rintro rfl; cases hp)
      obtain ⟨hs, hrest⟩ := List.cons.inj hp
      obtain rfl : rest = [] := List.map_eq_nil_iff.mp hrest.symm
      exact .last (entryAt_served (hload hash es hes (List.ne_nil_of_mem hte)) hte
        (hunique hash es hes te hte) hs (hparts s List.mem_cons_self))
  | @into hash es te target p hes hte hkind hbelow ih =>
      obtain ⟨s, rest, rfl⟩ := List.exists_cons_of_ne_nil (l := parts) (by rintro rfl; cases hp)
      obtain ⟨hs, rfl⟩ := List.cons.inj hp
      have hnext := ih rfl fun s hs => hparts s (List.mem_cons_of_mem _ hs)
      obtain ⟨next, rest, rfl⟩ : ∃ next rest', rest = next :: rest' := by
        refine List.exists_cons_of_ne_nil ?_
        rintro rfl
        cases hbelow
      exact .into (entryAt_served (hload hash es hes (List.ne_nil_of_mem hte)) hte
        (hunique hash es hes te hte) hs (hparts s List.mem_cons_self))
        ((kindEnum_served te).mpr hkind) hnext

/-- Names in UTF-8 are the bytes of texts. -/
theorem exists_parts {p : Path} (h : ∀ c ∈ p, IsTextName c) :
    ∃ parts : List String, p = parts.map utf8Bytes := by
  induction p with
  | nil => exact ⟨[], rfl⟩
  | cons c p ih =>
      obtain ⟨s, hs⟩ := (h c List.mem_cons_self).utf8
      obtain ⟨parts, hparts⟩ := ih fun d hd => h d (List.mem_cons_of_mem _ hd)
      exact ⟨s :: parts, by rw [List.map_cons, ← hs, ← hparts]⟩

/-- The name of what a path leads to is the last part of the path. -/
theorem Snapshot.PathTo.name_mem {snap : Snapshot} {hash : Hash} {p : Path} {target : TreeEntry}
    (h : snap.PathTo hash p target) : target.name ∈ p := by
  induction h with
  | last => exact List.mem_singleton_self _
  | into _ _ _ _ ih => exact List.mem_cons_of_mem _ ih

/-- **Tree objects are read back** if and only if they have entries and names in UTF-8. On a server
that has the tree objects of a snapshot, each path of the snapshot is resolved to the entry that
it has there. -/
theorem tree_objects_read_back {libs : MsgpackLibraries} (hlibs : libs.Lawful)
    {b : FsStore.TreeSource} (hb : b.readValue = libs.rmpv) :
    (∀ es, Packable es →
      (ReadBack libs b es ↔ es ≠ [] ∧ ∀ e ∈ es, ∃ s, e.name = utf8Bytes s)) ∧
      ∀ w, (w = Go.walker ∨ ∃ glob, w = Rust.walker glob) →
        ∀ blake3 o fs fuel snap, capture blake3 w o fs fuel = some (.ok snap) →
          (∀ hash es, snap.trees.lookup hash = some es →
            Packable es ∧ b.get hash = .ok (w.serializeTree es)) →
          ∀ p te, snap.PathTo snap.rootHash p te → (∀ c ∈ p, IsTextName c) →
            ∀ path, utf8Bytes path = p.text →
              b.resolvePath snap.rootHash path = .ok (te.hash, te.kind = .directory) ∧
                ∃ entry, b.Reaches snap.rootHash (FsStore.partsBetween path.toList) entry te.hash ∧
                  entry.fields = te.fields := by
  refine ⟨fun es hes => readBack_iff hlibs hb hes, ?_⟩
  intro w hw blake3 o fs fuel snap hsnap hserver p te hpath hnames path htext
  have hload : ∀ hash es, snap.trees.lookup hash = some es → es ≠ [] →
      b.loadTreeEntries hash = .ok (es.map TreeEntry.served) := by
    intro hash es hes hne
    obtain ⟨hpack, hget⟩ := hserver hash es hes
    have hbytes : w.serializeTree es = Rust.serializeTree es := by
      rcases hw with rfl | ⟨glob, rfl⟩
      · exact if_neg hne
      · rfl
    rw [FsStore.TreeSource.loadTreeEntries, hget, hbytes]
    exact server_reads hlibs hb hpack
  have hunique : ∀ hash es, snap.trees.lookup hash = some es →
      ∀ te ∈ es, ∀ te' ∈ es, te'.name = te.name → te' = te := by
    intro hash es hes te hte te' hte' hname
    obtain ⟨k, q, hk⟩ := (capture_trees hsnap).2 hash es hes
    exact treeAt_unique hk hte' hte hname
  obtain ⟨parts, rfl⟩ := exists_parts hnames
  have hfile : ∀ s ∈ parts, IsFileName (utf8Bytes s) := fun s hs =>
    (hnames _ (List.mem_map_of_mem hs)).fileName
  have hne : ∀ s ∈ parts, s ≠ "" := by
    rintro s hs rfl
    exact (hfile "" hs).ne_nil rfl
  have hreach := hpath.reaches hload hunique rfl hne
  obtain ⟨part, rest, rfl, hwalk⟩ := FsStore.exists_walk_of_reaches hreach
  have hparts := partsBetween_of_text (List.cons_ne_nil part rest) hfile htext
  refine ⟨?_, te.served, by rwa [hparts], ?_⟩
  · rw [FsStore.resolvePath_eq, FsStore.pathParts_eq, hparts, FsStore.resolveLoop_eq, hwalk]
    simp [Except.map, kindEnum_served]
  · exact (served_fields te).mpr (hnames _ hpath.name_mem).utf8

/-! ### A directory with one file -/

/-- The libraries read values as the format has them. -/
def formatLibraries : MsgpackLibraries where
  rmpv bs := ((Msgpack.read bs).map rmpvValue).elim (.error "no value") .ok
  serde bs := ((Msgpack.read bs).map rmpvValue).elim (.error "no value") .ok
  go bs := (Msgpack.read bs).elim (.error "no value") .ok

theorem formatLibraries_lawful : formatLibraries.Lawful where
  rmpv h := by simp [formatLibraries, h]
  serde h := by simp [formatLibraries, h]
  go h := by simp [formatLibraries, h]

/-- A directory with a file of one byte. -/
def singleFile : FileSystem where
  canonical := some
  readDir p := if p = [] then some [⟨utf8Bytes "a", false⟩] else none
  stat p := if p = [] then some ⟨.directory, 0o755, 0⟩
    else if p = [utf8Bytes "a"] then some ⟨.regular, 0o644, 1⟩ else none
  lstat p := if p = [] then some ⟨.directory, 0o755, 0⟩
    else if p = [utf8Bytes "a"] then some ⟨.regular, 0o644, 1⟩ else none
  readLink _ := none
  readFile p := if p = [utf8Bytes "a"] then some [1] else none
  stat_follows := by
    intro p info h
    split_ifs at h
    · cases h
      simp
    · cases h
      simp

/-- Its tree object. -/
def singleFileTree : List TreeEntry := [⟨utf8Bytes "a", .file, 0o644, 1, headDigest [1]⟩]

/-- A blob store into which the tree object is put. -/
def singleFileSource : FsStore.TreeSource :=
  let put := runCall (putIfAbsent rawBlockZstd (headDigest (Go.serializeTree singleFileTree))
    (Go.serializeTree singleFileTree)) { index := ∅ } (fun _ => []) none
  { zstd := rawBlockZstd
    readValue := formatLibraries.rmpv
    store := put.2.1
    pack := put.2.2 .blobsPack }

set_option maxRecDepth 4000 in
theorem singleFileSource_get :
    singleFileSource.get (headDigest (Go.serializeTree singleFileTree)) =
      .ok (Go.serializeTree singleFileTree) := by
  decide +kernel

/-- The theorem holds of a snapshot: the server resolves the path of the file. -/
theorem tree_objects_read_back_oneFile :
    ReadBack formatLibraries singleFileSource singleFileTree ∧
      ∃ snap, capture headDigest Go.walker .default singleFile 1 = some (.ok snap) ∧
        singleFileSource.resolvePath snap.rootHash "a" = .ok (headDigest [1], false) := by
  have hall := tree_objects_read_back formatLibraries_lawful (b := singleFileSource) rfl
  have hname : IsTextName (utf8Bytes "a") :=
    ⟨⟨by decide, by decide, by decide, by decide⟩, "a", rfl⟩
  have hpack : Packable singleFileTree := ⟨by decide, by decide⟩
  refine ⟨(hall.1 singleFileTree hpack).mpr ⟨by decide, fun e he => ?_⟩, ?_⟩
  · exact ⟨"a", by rw [List.mem_singleton.mp he]⟩
  · obtain ⟨snap, hsnap, hroot, htrees⟩ : ∃ snap,
        capture headDigest Go.walker .default singleFile 1 = some (.ok snap) ∧
          snap.rootHash = headDigest (Go.serializeTree singleFileTree) ∧
          snap.trees = (∅ : HashMap Hash (List TreeEntry)).insert
            (headDigest (Go.serializeTree singleFileTree)) singleFileTree := ⟨_, rfl, rfl, rfl⟩
    have hpath : snap.PathTo snap.rootHash [utf8Bytes "a"]
        ⟨utf8Bytes "a", .file, 0o644, 1, headDigest [1]⟩ := by
      have hlookup : snap.trees.lookup snap.rootHash = some singleFileTree := by
        rw [htrees, hroot, LastWrite.lookup_insert, if_pos rfl]
      exact .last hlookup (List.mem_singleton_self _)
    refine ⟨snap, hsnap, ?_⟩
    have hresolve := hall.2 Go.walker (Or.inl rfl) headDigest .default singleFile 1 snap hsnap ?_
      [utf8Bytes "a"] _ hpath (by simpa using hname) "a" (by simp [Path.text])
    · exact hresolve.1
    · intro hash es hes
      rw [htrees, LastWrite.lookup_insert] at hes
      split_ifs at hes with hh
      · obtain rfl := Option.some.inj hes
        rw [hh]
        exact ⟨hpack, singleFileSource_get⟩
      · cases hes

/-- **The tree object of a directory without entries** is not read back. -/
theorem empty_directory_unreadable :
    Packable [] ∧ Go.serializeTree [] ≠ Rust.serializeTree [] ∧
      singleFileSource.parseTreeEntries (Go.serializeTree []) =
        .error (.corrupt "tree is not an array") ∧
      ¬ReadBack formatLibraries singleFileSource [] := by
  have hread : Msgpack.read (Go.serializeTree []) = some .nil := rfl
  refine ⟨⟨by decide, by simp⟩, by decide, ?_, fun h => absurd h.bytes (by decide)⟩
  have hvalue : singleFileSource.readValue (Go.serializeTree []) = .ok .nil := by
    rw [← rmpvValue_nil]
    exact formatLibraries_lawful.rmpv hread
  rw [FsStore.TreeSource.parseTreeEntries, hvalue]

end Cxdb
