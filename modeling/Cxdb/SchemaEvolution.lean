import Cxdb.RegistryRestart

/-!
# Schema Evolution

What a registry promises about a type: a tag means the same in all of its versions, the enums
of what it has accepted are there, and the fields of a version never change. The last of these
a restart breaks when a version that is registered is in no file, since a refused bundle has
left it behind or another bundle has the file of its bundle.

## Main results

* `ingestBundle_fieldsIn`: a merge that succeeds has registered every version of its bundle.
* `schema_evolution_safe`: what holds in every run that restarts only when every registered
  version is in a file.
* `version_changes`: a version whose fields change.
-/

open ByteFormat FailingLoop IterationOrder Transition

namespace Cxdb

variable {readBundle : BundleReader}

/-! ### What a merge has registered -/

/-- Every version of the bundle can be read, and is among these facts with its fields. -/
def RegistryBundle.FieldsIn (b : RegistryBundle) (o : HashOrder) (T : Set RegistryFact) : Prop :=
  ∀ typeId entry, b.types.lookup typeId = some entry →
    ∀ version d, entry.versions.lookup version = some d →
      ∃ n, readVersion o typeId (version, d) = .ok n ∧
        .type (typeId, some (.fields n.version n.fields)) ∈ T

theorem RegistryBundle.FieldsIn.mono {b : RegistryBundle} {o : HashOrder}
    {T T' : Set RegistryFact} (h : b.FieldsIn o T)
    (hsub : ∀ typeId v F, .type (typeId, some (.fields v F)) ∈ T →
      .type (typeId, some (.fields v F)) ∈ T') : b.FieldsIn o T' := by
  intro typeId entry hentry version d hd
  obtain ⟨n, hn, hfact⟩ := h typeId entry hentry version d hd
  exact ⟨n, hn, hsub _ _ _ hfact⟩

theorem RegistryBundle.FieldsIn.reorder {b : RegistryBundle} {o : HashOrder}
    {T : Set RegistryFact} (h : b.FieldsIn o T) (hb : b.Unambiguous) (o' : HashOrder) :
    b.FieldsIn o' T := by
  intro typeId entry hentry version d hd
  obtain ⟨n, hn, hfact⟩ := h typeId entry hentry version d hd
  exact ⟨n, by rwa [readVersion_eq (hb typeId entry hentry version d hd) o' o], hfact⟩

/-- A version that has been merged is there. -/
theorem mergeVersion_has {o : HashOrder} {typeId : String} {entry : String × TypeVersion}
    {spec spec' : TypeSpec} (hok : mergeVersion o typeId entry spec = (.ok (), spec')) :
    ∃ n, readVersion o typeId entry = .ok n ∧ .fields n.version n.fields ∈ spec'.facts := by
  rcases mergeVersion_cases o typeId entry spec with
    ⟨e, -, heq⟩ | ⟨n, hn, ⟨old, hold, ⟨-, e, heq⟩ | ⟨hfields, -, heq⟩ |
      ⟨hfields, hsome, hnone, heq⟩⟩ | ⟨hnone, heq⟩⟩ <;> rw [heq] at hok
  · cases hok
  · cases hok
  · obtain rfl := (Prod.mk.inj hok).2
    exact ⟨n, hn, old, hold, hfields⟩
  · obtain rfl := (Prod.mk.inj hok).2
    exact ⟨n, hn, _, Finmap.lookup_insert _, hfields⟩
  · obtain ⟨tagSchema, -, ⟨e, hfail⟩ | ⟨-, hadd⟩⟩ := mergeNewVersion_cases o typeId entry n spec
    · rw [hfail] at hok
      cases hok
    · rw [hadd] at hok
      obtain rfl := (Prod.mk.inj hok).2
      exact ⟨n, hn, n, Finmap.lookup_insert _, rfl⟩

/-- A type that has been merged has all its versions. -/
theorem mergeType_has {o : HashOrder} {entry : String × TypeEntry}
    {types types' : HashMap String TypeSpec} (h : TypesWellFormed types)
    (hok : mergeType o entry types = (.ok (), types')) :
    ∀ version ∈ versionsOf o entry, ∃ n, readVersion o entry.1 version = .ok n ∧
      (entry.1, some (.fields n.version n.fields)) ∈ typeFacts types' := by
  rw [mergeType_eq] at hok
  obtain ⟨hrun, rfl⟩ := Prod.mk.inj hok
  intro version hmem
  obtain ⟨n, hn, hfact⟩ := run_brings (P := TypeSpec.WellFormed)
    (Q := fun version (spec : TypeSpec) => ∃ n, readVersion o entry.1 version = .ok n ∧
      .fields n.version n.fields ∈ spec.facts)
    (fun version _ spec spec' hwf hv => by
      obtain ⟨hwf', hsub⟩ := mergeVersion_grows o entry.1 version hwf
      rw [hv] at hwf' hsub
      exact ⟨hwf', mergeVersion_has hv, fun _ ⟨n, hn, hf⟩ => ⟨n, hn, hsub hf⟩⟩)
    (Prod.ext hrun rfl :
      run (mergeVersion o entry.1) (versionsOf o entry)
        ((types.lookup entry.1).getD TypeSpec.empty) = (.ok (), _))
    (h.getD entry.1) version hmem
  refine ⟨n, hn, mem_typeFacts_insert.mpr (Or.inl ⟨rfl, fun f hf => ?_⟩)⟩
  rw [← Option.some.inj hf]
  exact hfact

/-- **A merge that succeeds** has registered every version of its bundle. -/
theorem ingestBundle_fieldsIn {o : HashOrder} {r r' : Registry} {b : RegistryBundle}
    (h : TypesWellFormed r.types) (hok : r.ingestBundle o b = (.ok (), r')) :
    b.FieldsIn o r'.facts := by
  obtain ⟨-, -, htypes, -⟩ := Registry.ingestBundle_eq_ok_iff.mp hok
  have hall := run_brings (P := TypesWellFormed)
    (Q := fun entry (types : HashMap String TypeSpec) => ∀ version ∈ versionsOf o entry,
      ∃ n, readVersion o entry.1 version = .ok n ∧
        (entry.1, some (.fields n.version n.fields)) ∈ typeFacts types)
    (fun entry _ types types' hwf ht => by
      obtain ⟨hwf', hsub⟩ := mergeType_grows o entry hwf
      rw [ht] at hwf' hsub
      refine ⟨hwf', mergeType_has hwf ht, fun _ hQ version hmem => ?_⟩
      obtain ⟨n, hn, hf⟩ := hQ version hmem
      exact ⟨n, hn, hsub hf⟩) htypes h
  intro typeId entry hentry version d hd
  exact hall (typeId, entry) (mem_typeList.mpr hentry) (version, d) (mem_versionsOf.mpr hd)

/-! ### Directories and the versions in them -/

/-- The bundle defines the version. -/
def RegistryBundle.Defines (b : RegistryBundle) (typeId : String) (v : UInt32) : Prop :=
  ∃ entry version d, b.types.lookup typeId = some entry ∧
    entry.versions.lookup version = some d ∧ Decimal.parseU32 version = some v

/-- A put whose bundle spells every tag once, or a restart when every registered version is
defined in a file. -/
def RegistryHost.KeepsVersions (readBundle : BundleReader) (m : RegistryHost) :
    RegistryAct → Prop
  | .putBundle _ _ raw _ => ∀ b, readBundle raw = .ok b → b.Unambiguous
  | .reopen _ _ => ∀ typeId v n, m.registry.getTypeVersion typeId v = some n →
      ∃ name raw b, m.files.lookup name = some raw ∧ readBundle raw = .ok b ∧
        b.Defines typeId v

/-- What is in a file is registered. -/
def RegistryHost.FilesMerged (readBundle : BundleReader) (m : RegistryHost) : Prop :=
  ∀ name raw, m.files.lookup name = some raw → extension name = some "json" ∧
    ∀ b, readBundle raw = .ok b → b.Unambiguous ∧ b.FieldsIn .sorted m.registry.facts

theorem getTypeVersion_eq_some_iff {r : Registry} {typeId : String} {v : UInt32}
    {n : TypeVersionSpec} : r.getTypeVersion typeId v = some n ↔
      ∃ spec, r.types.lookup typeId = some spec ∧ spec.versions.lookup v = some n :=
  Option.bind_eq_some_iff

/-- The fields of a registered version, as a fact. -/
theorem fields_mem_iff {r : Registry} {typeId : String} {v : UInt32}
    {F : HashMap UInt64 FieldSpec} : .type (typeId, some (.fields v F)) ∈ r.facts ↔
      ∃ n, r.getTypeVersion typeId v = some n ∧ n.fields = F := by
  constructor
  · rintro ⟨spec, hspec, hf⟩
    obtain ⟨n, hn, hF⟩ := hf _ rfl
    exact ⟨n, getTypeVersion_eq_some_iff.mpr ⟨spec, hspec, hn⟩, hF⟩
  · rintro ⟨n, hn, rfl⟩
    obtain ⟨spec, hspec, hn⟩ := getTypeVersion_eq_some_iff.mp hn
    refine ⟨spec, hspec, fun f hf => ?_⟩
    rw [← Option.some.inj hf]
    exact ⟨n, hn, rfl⟩

/-- The registry keeps the fields of every version. -/
def KeepsFields (r r' : Registry) : Prop :=
  ∀ typeId v F, .type (typeId, some (.fields v F)) ∈ r.facts →
    .type (typeId, some (.fields v F)) ∈ r'.facts

theorem KeepsFields.of_ingest {r : Registry} (h : TypesWellFormed r.types) (o : HashOrder)
    (b : RegistryBundle) : KeepsFields r (r.ingestBundle o b).2 :=
  fun _ _ _ hf => (Registry.ingestBundle_grows h o b).2.1 hf

/-- **A pass over a file** that succeeds skips the file or merges its bundle. -/
theorem Registry.loadFile_cases {orders : String → HashOrder} {entry : String × Bytes}
    {r r' : Registry} (hok : r.loadFile readBundle orders entry = (.ok (), r')) :
    (extension entry.1 ≠ some "json" ∧ r' = r) ∨
      extension entry.1 = some "json" ∧ ∃ b r₁, readBundle entry.2 = .ok b ∧
        r.ingestBundle (orders entry.1) b = (.ok (), r₁) ∧
        r' = r₁.stored b.bundleId entry.2 := by
  rw [Registry.loadFile] at hok
  split at hok
  next hext => exact Or.inl ⟨hext, (Prod.mk.inj hok).2.symm⟩
  next hext =>
    cases hread : readBundle entry.2 with
    | error e =>
        rw [hread] at hok
        cases hok
    | ok b =>
        rw [hread] at hok
        simp only at hok
        rcases hi : r.ingestBundle (orders entry.1) b with ⟨_ | _, r₁⟩
        · rw [hi] at hok
          cases hok
        · rw [hi] at hok
          exact Or.inr ⟨not_not.mp hext, b, r₁, rfl, hi, (Prod.mk.inj hok).2.symm⟩

theorem KeepsFields.stored (r : Registry) (bundleId : String) (raw : Bytes) :
    KeepsFields r (r.stored bundleId raw) := fun _ _ _ hf => hf

/-- **What `open` gives** has every version of every file, and every enum they refer to. -/
theorem Registry.open_spec {orders : String → HashOrder} {entries : List (String × Bytes)}
    {r : Registry} (hopen : Registry.open readBundle orders entries = .ok r) :
    TypesWellFormed r.types ∧ EnumsKnown r.facts ∧
      ∀ entry ∈ entries, extension entry.1 = some "json" →
        ∀ b, readBundle entry.2 = .ok b → b.FieldsIn (orders entry.1) r.facts := by
  have hrun := Registry.run_of_open hopen
  have hpass : ∀ entry (r r' : Registry), TypesWellFormed r.types ∧ EnumsKnown r.facts →
      r.loadFile readBundle orders entry = (.ok (), r') →
      (TypesWellFormed r'.types ∧ EnumsKnown r'.facts) ∧ KeepsFields r r' ∧
        (extension entry.1 = some "json" → ∀ b, readBundle entry.2 = .ok b →
          b.FieldsIn (orders entry.1) r'.facts) := by
    rintro entry r r' ⟨hwf, hknown⟩ hok
    rcases Registry.loadFile_cases hok with ⟨hext, rfl⟩ | ⟨-, b, r₁, hread, hi, rfl⟩
    · exact ⟨⟨hwf, hknown⟩, fun _ _ _ hf => hf, fun hjson => absurd hjson hext⟩
    · have hgrow := Registry.ingestBundle_grows hwf (orders entry.1) b
      have hkeeps := KeepsFields.of_ingest hwf (orders entry.1) b
      rw [hi] at hgrow hkeeps
      have hcheck := (Registry.ingestBundle_eq_ok_iff.mp hi).2.2.2.1
      refine ⟨⟨hgrow.1, enumsKnown_stored ((checkEnums_ok_iff r₁).mp hcheck)⟩, hkeeps, ?_⟩
      intro _ b' hb'
      obtain rfl := Except.ok.inj (hread.symm.trans hb')
      exact (ingestBundle_fieldsIn hwf hi).mono (KeepsFields.stored r₁ b.bundleId entry.2)
  have hstart : TypesWellFormed Registry.empty.types ∧ EnumsKnown Registry.empty.facts := by
    refine ⟨TypesWellFormed.empty, ?_⟩
    rintro typeId v fields ⟨spec, hspec, -⟩
    simp [Registry.empty] at hspec
  obtain ⟨hwf, hknown⟩ := run_keeps_of_ok
    (P := fun r : Registry => TypesWellFormed r.types ∧ EnumsKnown r.facts)
    (fun entry _ r r' hP hok => (hpass entry r r' hP hok).1) hrun hstart
  refine ⟨hwf, hknown, run_brings
    (P := fun r : Registry => TypesWellFormed r.types ∧ EnumsKnown r.facts)
    (Q := fun entry (r : Registry) => extension entry.1 = some "json" →
      ∀ b, readBundle entry.2 = .ok b → b.FieldsIn (orders entry.1) r.facts)
    (fun entry _ r r' hP hok => ?_) hrun hstart⟩
  obtain ⟨hP', hkeeps, hfields⟩ := hpass entry r r' hP hok
  exact ⟨hP', hfields, fun _ hQ hjson b hb => (hQ hjson b hb).mono hkeeps⟩

/-- No beginning of a bundle's text is the text of another bundle. -/
def ReadsWhole (readBundle : BundleReader) : Prop :=
  ∀ raw bytes b b', readBundle raw = .ok b → readBundle (raw.take bytes) = .ok b' → b' = b

/-- What a put leaves in its file is its own bundle, or nothing that can be read. -/
theorem lookup_fsWrite (hwhole : ReadsWhole readBundle) {files files' : BundleDir}
    {file : String} {raw : Bytes} {b : RegistryBundle} (hread : readBundle raw = .ok b)
    {fault : Option FileFault} {x : Except StoreError Unit}
    (hw : fsWrite files file raw fault = (x, files')) {name : String} {raw' : Bytes}
    (hraw' : files'.lookup name = some raw') :
    files.lookup name = some raw' ∨ name = file ∧ ∀ b', readBundle raw' = .ok b' → b' = b := by
  cases fault with
  | none =>
      obtain rfl := (Prod.mk.inj hw).2
      rw [LastWrite.lookup_insert] at hraw'
      split at hraw'
      next hname =>
        obtain rfl := Option.some.inj hraw'
        exact Or.inr ⟨hname, fun b' hb' => Except.ok.inj (hb'.symm.trans hread)⟩
      · exact Or.inl hraw'
  | some fault =>
      cases fault with
      | unopened =>
          obtain rfl := (Prod.mk.inj hw).2
          exact Or.inl hraw'
      | cut bytes =>
          obtain rfl := (Prod.mk.inj hw).2
          rw [LastWrite.lookup_insert] at hraw'
          split at hraw'
          next hname =>
            obtain rfl := Option.some.inj hraw'
            exact Or.inr ⟨hname, fun b' hb' => hwhole raw bytes b b' hread hb'⟩
          · exact Or.inl hraw'

/-- The files after a put whose bundle has been merged. -/
theorem RegistryHost.FilesMerged.write (hwhole : ReadsWhole readBundle) {m : RegistryHost}
    (h : m.FilesMerged readBundle) (hwf : TypesWellFormed m.registry.types) {o : HashOrder}
    {bundleId : String} {raw : Bytes} {b : RegistryBundle}
    (hread : readBundle raw = .ok b) (hb : b.Unambiguous) {r : Registry}
    (hi : m.registry.ingestBundle o b = (.ok (), r)) {fault : Option FileFault}
    {x : Except StoreError Unit} {files : BundleDir}
    (hw : fsWrite m.files (bundleFilename bundleId) raw fault = (x, files)) :
    RegistryHost.FilesMerged readBundle { registry := r, files } := by
  have hkeeps := KeepsFields.of_ingest hwf o b
  rw [hi] at hkeeps
  intro name raw' hraw'
  rcases lookup_fsWrite hwhole hread hw hraw' with hold | ⟨hname, hown⟩
  · obtain ⟨hext, hall⟩ := h name raw' hold
    refine ⟨hext, fun b' hb' => ?_⟩
    obtain ⟨hun, hfields⟩ := hall b' hb'
    exact ⟨hun, hfields.mono hkeeps⟩
  · refine ⟨hname ▸ extension_bundleFilename bundleId, fun b' hb' => ?_⟩
    rw [hown b' hb']
    exact ⟨hb, (ingestBundle_fieldsIn hwf hi).reorder hb .sorted⟩

theorem readVersion_version {o : HashOrder} {typeId version : String} {d : TypeVersion}
    {n : TypeVersionSpec} (hn : readVersion o typeId (version, d) = .ok n) {v : UInt32}
    (hv : Decimal.parseU32 version = some v) : n.version = v := by
  rw [readVersion, parseVersion, hv] at hn
  simp only [normalizeVersion] at hn
  split at hn
  · cases hn
  · rw [← Except.ok.inj hn]

/-- **A step keeps the fields of every version.** -/
theorem RegistryHost.FilesMerged.step (hwhole : ReadsWhole readBundle) {m m' : RegistryHost}
    {a : RegistryAct} (h : m.FilesMerged readBundle) (hwf : TypesWellFormed m.registry.types)
    (hkeeps : m.KeepsVersions readBundle a) (hs : m.act readBundle a = some m') :
    m'.FilesMerged readBundle ∧ KeepsFields m.registry m'.registry := by
  cases a with
  | putBundle o bundleId raw fault =>
      obtain rfl := Option.some.inj hs
      rcases m.put_cases readBundle o bundleId raw fault with
        ⟨hsame, -, -⟩ | ⟨b, hm, ⟨e', r, hi, hput⟩ | ⟨r, hi, ⟨e', files, hw, hput⟩ | ⟨-, hput⟩⟩⟩
      · rw [hsame]
        exact ⟨h, fun _ _ _ hf => hf⟩
      all_goals
        have hgrow := KeepsFields.of_ingest hwf o b
        rw [hi] at hgrow
        rw [hput]
      · refine ⟨fun name raw' hraw' => ?_, hgrow⟩
        obtain ⟨hext, hall⟩ := h name raw' hraw'
        exact ⟨hext, fun b' hb' => ⟨(hall b' hb').1, (hall b' hb').2.mono hgrow⟩⟩
      · exact ⟨h.write hwhole hwf hm.read (hkeeps b hm.read) hi hw, hgrow⟩
      · refine ⟨fun name raw' hraw' => ?_, hgrow⟩
        have hw : fsWrite m.files (bundleFilename bundleId) raw none = (.ok (), _) := rfl
        obtain ⟨hext, hall⟩ := h.write hwhole hwf hm.read (hkeeps b hm.read) hi hw name raw' hraw'
        exact ⟨hext, fun b' hb' => ⟨(hall b' hb').1,
          (hall b' hb').2.mono (KeepsFields.stored r bundleId raw)⟩⟩
  | reopen orders names =>
      rw [RegistryHost.act] at hs
      split at hs
      next hnames =>
        split at hs
        next r hr =>
          obtain rfl := Option.some.inj hs
          obtain ⟨-, -, hfiles⟩ := Registry.open_spec hr
          have hloaded : ∀ name raw, m.files.lookup name = some raw →
              ∀ b, readBundle raw = .ok b → b.FieldsIn .sorted r.facts := by
            intro name raw hraw b hb
            obtain ⟨hext, hall⟩ := h name raw hraw
            exact (hfiles (name, raw) ((mem_entriesIn hnames).mpr hraw) hext b hb).reorder
              (hall b hb).1 .sorted
          refine ⟨fun name raw hraw => ?_, fun typeId v F hf => ?_⟩
          · obtain ⟨hext, hall⟩ := h name raw hraw
            exact ⟨hext, fun b hb => ⟨(hall b hb).1, hloaded name raw hraw b hb⟩⟩
          · -- The version is in a file, with the fields that it has here.
            obtain ⟨n, hn, rfl⟩ := fields_mem_iff.mp hf
            obtain ⟨name, raw, b, hraw, hread, entry, version, d, hentry, hd, hv⟩ :=
              hkeeps typeId v n hn
            obtain ⟨n', hn', hf'⟩ := ((h name raw hraw).2 b hread).2 typeId entry hentry version
              d hd
            obtain ⟨n'', hn'', hf''⟩ := hloaded name raw hraw b hread typeId entry hentry version
              d hd
            obtain rfl := Except.ok.inj (hn'.symm.trans hn'')
            obtain rfl := readVersion_version hn' hv
            rwa [(m.registry.consistent.type typeId).fields _ _ _ hf hf']
        · cases hs
      · cases hs

/-! ### Versions of accepted bundles -/

/-- The version is registered, and so are the enums of its fields. -/
def Registry.Serves (r : Registry) (typeId : String) (v : UInt32) : Prop :=
  ∃ n, r.getTypeVersion typeId v = some n ∧
    ∀ tag f enumRef, n.fields.lookup tag = some f → f.enumRef = some enumRef → enumRef ∈ r.enums

/-- The registry serves the versions of every bundle that it has. -/
def RegistryHost.ServesBundles (readBundle : BundleReader) (m : RegistryHost) : Prop :=
  ∀ id raw b, m.registry.bundles.lookup id = some raw → readBundle raw = .ok b →
    ∀ typeId v, b.Defines typeId v → m.registry.Serves typeId v

/-- When all enums are known, a version that is registered is served. -/
theorem Registry.Serves.of_known {r : Registry} (hknown : EnumsKnown r.facts) {typeId : String}
    {v : UInt32} {F : HashMap UInt64 FieldSpec}
    (hf : .type (typeId, some (.fields v F)) ∈ r.facts) : r.Serves typeId v := by
  obtain ⟨n, hn, rfl⟩ := fields_mem_iff.mp hf
  refine ⟨n, hn, fun tag f enumRef hl he => ?_⟩
  obtain ⟨mapping, hm⟩ := hknown typeId v n.fields hf tag f enumRef hl he
  exact Finmap.mem_iff.mpr ⟨mapping, hm⟩

/-- A bundle whose versions are there is served. -/
theorem RegistryBundle.FieldsIn.serves {r : Registry} {b : RegistryBundle} {o : HashOrder}
    (h : b.FieldsIn o r.facts) (hknown : EnumsKnown r.facts) {typeId : String} {v : UInt32}
    (hdef : b.Defines typeId v) : r.Serves typeId v := by
  obtain ⟨entry, version, d, hentry, hd, hv⟩ := hdef
  obtain ⟨n, hn, hf⟩ := h typeId entry hentry version d hd
  obtain rfl := readVersion_version hn hv
  exact .of_known hknown hf

/-- Every bundle that `open` has comes from a file. -/
theorem Registry.open_bundles {orders : String → HashOrder} {entries : List (String × Bytes)}
    {r : Registry} (hopen : Registry.open readBundle orders entries = .ok r) {id : String}
    {raw : Bytes} (h : r.bundles.lookup id = some raw) :
    ∃ name, (name, raw) ∈ entries ∧ extension name = some "json" := by
  refine run_keeps_of_ok (P := fun r : Registry => ∀ id raw, r.bundles.lookup id = some raw →
    ∃ name, (name, raw) ∈ entries ∧ extension name = some "json")
    (fun entry hmem r r' hP hok id raw hraw => ?_) (Registry.run_of_open hopen)
    (fun id raw hraw => by simp [Registry.empty] at hraw) id raw h
  rcases Registry.loadFile_cases hok with ⟨-, rfl⟩ | ⟨hext, b, r₁, -, hi, rfl⟩
  · exact hP id raw hraw
  · rw [Registry.stored, LastWrite.lookup_insert] at hraw
    split at hraw
    · obtain rfl := Option.some.inj hraw
      exact ⟨entry.1, hmem, hext⟩
    · have hsame := (r.ingestBundle_bundles (orders entry.1) b).1
      rw [hi] at hsame
      exact hP id raw (hsame ▸ hraw)

/-- **What a step does to the enums**: it keeps them, or every enum is known after it. -/
theorem RegistryHost.act_enums {m m' : RegistryHost} {a : RegistryAct}
    (hwf : TypesWellFormed m.registry.types) (hs : m.act readBundle a = some m') :
    (∀ enumRef, enumRef ∈ m.registry.enums → enumRef ∈ m'.registry.enums) ∨
      EnumsKnown m'.registry.facts := by
  cases a with
  | putBundle o bundleId raw fault =>
      obtain rfl := Option.some.inj hs
      rcases m.put_cases readBundle o bundleId raw fault with
        ⟨hsame, -, -⟩ | ⟨b, -, ⟨e', r, hi, hput⟩ | ⟨r, hi, ⟨e', files, -, hput⟩ | ⟨-, hput⟩⟩⟩
      · rw [hsame]
        exact Or.inl fun _ h => h
      all_goals
        have hgrow := (Registry.ingestBundle_grows hwf o b).2.2
        rw [hi] at hgrow
        rw [hput]
        refine Or.inl fun enumRef h => ?_
        obtain ⟨mapping, hm⟩ := Finmap.mem_iff.mp h
        have hmem : (enumRef, mapping) ∈ graph m.registry.enums := hm
        exact Finmap.mem_iff.mpr ⟨mapping, hgrow hmem⟩
  | reopen orders names =>
      rw [RegistryHost.act] at hs
      split at hs
      · split at hs
        next r hr =>
          obtain rfl := Option.some.inj hs
          exact Or.inr (Registry.open_spec hr).2.1
        · cases hs
      · cases hs

/-- A step that keeps the fields of every version serves what was served before it. -/
theorem Registry.Serves.step {m m' : RegistryHost} {a : RegistryAct}
    (hwf : TypesWellFormed m.registry.types) (hkeep : KeepsFields m.registry m'.registry)
    (hs : m.act readBundle a = some m') {typeId : String} {v : UInt32}
    (h : m.registry.Serves typeId v) : m'.registry.Serves typeId v := by
  obtain ⟨n, hn, henums⟩ := h
  have hf' := hkeep typeId v n.fields (fields_mem_iff.mpr ⟨n, hn, rfl⟩)
  rcases RegistryHost.act_enums hwf hs with hgrow | hknown
  · obtain ⟨n', hn', hfields⟩ := fields_mem_iff.mp hf'
    exact ⟨n', hn', fun tag f enumRef hl he => hgrow _ (henums tag f enumRef (hfields ▸ hl) he)⟩
  · exact .of_known hknown hf'

/-- **A bundle that the registry has after a step** it had before it, or all of its versions
and every enum have been found. -/
theorem RegistryHost.act_bundles {m m' : RegistryHost} {a : RegistryAct}
    (hwf : TypesWellFormed m.registry.types) (hs : m.act readBundle a = some m')
    {id : String} {raw : Bytes} (hraw : m'.registry.bundles.lookup id = some raw)
    {b : RegistryBundle} (hread : readBundle raw = .ok b) :
    m.registry.bundles.lookup id = some raw ∨
      (∃ o, b.FieldsIn o m'.registry.facts) ∧ EnumsKnown m'.registry.facts := by
  cases a with
  | putBundle o bundleId text fault =>
      obtain rfl := Option.some.inj hs
      rcases m.put_cases readBundle o bundleId text fault with
        ⟨hsame, -, -⟩ | ⟨b', hm, ⟨e', r, hi, hput⟩ | ⟨r, hi, ⟨e', files, -, hput⟩ | ⟨-, hput⟩⟩⟩
      · exact Or.inl (hsame ▸ hraw)
      all_goals
        have hsame := (m.registry.ingestBundle_bundles o b').1
        rw [hi] at hsame
        rw [hput] at hraw ⊢
      · exact Or.inl (hsame ▸ hraw)
      · exact Or.inl (hsame ▸ hraw)
      · rw [Registry.stored, LastWrite.lookup_insert] at hraw
        split at hraw
        · obtain rfl := Option.some.inj hraw
          obtain rfl := Except.ok.inj (hm.read.symm.trans hread)
          have hcheck := (Registry.ingestBundle_eq_ok_iff.mp hi).2.2.2.1
          exact Or.inr ⟨⟨o, (ingestBundle_fieldsIn hwf hi).mono
            (KeepsFields.stored r bundleId text)⟩,
            enumsKnown_stored ((checkEnums_ok_iff r).mp hcheck)⟩
        · exact Or.inl (hsame ▸ hraw)
  | reopen orders names =>
      rw [RegistryHost.act] at hs
      split at hs
      · split at hs
        next r hr =>
          obtain rfl := Option.some.inj hs
          obtain ⟨-, hknown, hfiles⟩ := Registry.open_spec hr
          obtain ⟨name, hmem, hext⟩ := Registry.open_bundles hr hraw
          exact Or.inr ⟨⟨_, hfiles (name, raw) hmem hext b hread⟩, hknown⟩
        · cases hs
      · cases hs

/-- What holds in every run that keeps the versions. -/
structure RegistryHost.Evolved (readBundle : BundleReader) (m : RegistryHost) : Prop where
  wellFormed : TypesWellFormed m.registry.types
  files : m.FilesMerged readBundle
  serves : m.ServesBundles readBundle

theorem RegistryHost.Evolved.start : RegistryHost.start.Evolved readBundle where
  wellFormed := TypesWellFormed.empty
  files := by simp [RegistryHost.FilesMerged, RegistryHost.start]
  serves := by simp [RegistryHost.ServesBundles, RegistryHost.start, Registry.empty]

theorem RegistryHost.Evolved.step (hwhole : ReadsWhole readBundle) {m m' : RegistryHost}
    {a : RegistryAct} (h : m.Evolved readBundle) (hkeeps : m.KeepsVersions readBundle a)
    (hs : m.act readBundle a = some m') : m'.Evolved readBundle where
  wellFormed := RegistryHost.wellFormed_step h.wellFormed hs
  files := (h.files.step hwhole h.wellFormed hkeeps hs).1
  serves := by
    intro id raw b hraw hread typeId v hdef
    have hkeep := (h.files.step hwhole h.wellFormed hkeeps hs).2
    rcases RegistryHost.act_bundles h.wellFormed hs hraw hread with hold | ⟨⟨o, hin⟩, hknown⟩
    · exact (h.serves id raw b hold hread typeId v hdef).step h.wellFormed hkeep hs
    · exact hin.serves hknown hdef

/-- **A run that keeps the versions** keeps their fields, and serves what was served. -/
theorem RegistryHost.Evolved.run (hwhole : ReadsWhole readBundle) {m m' : RegistryHost}
    {es : List RegistryAct} (h : m.Evolved readBundle)
    (hrun : Run (Guarded (RegistryHost.KeepsVersions readBundle)
      (Steps (RegistryHost.act readBundle))) m es m') :
    m'.Evolved readBundle ∧ KeepsFields m.registry m'.registry ∧
      ∀ typeId v, m.registry.Serves typeId v → m'.registry.Serves typeId v := by
  refine hrun.invariant (I := fun _ m' => m'.Evolved readBundle ∧
    KeepsFields m.registry m'.registry ∧
      ∀ typeId v, m.registry.Serves typeId v → m'.registry.Serves typeId v)
    ⟨h, fun _ _ _ hf => hf, fun _ _ hv => hv⟩ ?_
  rintro - m' a m'' ⟨h', hkept, hserved⟩ ⟨hkeeps, hs⟩
  have hkeep := (h'.files.step hwhole h'.wellFormed hkeeps hs).2
  exact ⟨h'.step hwhole hkeeps hs, fun t v F hf => hkeep t v F (hkept t v F hf),
    fun t v hv => (hserved t v hv).step h'.wellFormed hkeep hs⟩

/-- A bundle that a put accepts is one that the registry has from then on. -/
theorem RegistryHost.put_accepted {m : RegistryHost} {o : HashOrder} {bundleId : String}
    {raw : Bytes} {fault : Option FileFault} {outcome : PutOutcome}
    (hok : (m.put readBundle o bundleId raw fault).1 = .ok outcome) :
    (m.put readBundle o bundleId raw fault).2.registry.bundles.lookup bundleId = some raw := by
  rw [RegistryHost.put, Registry.putBundle] at hok ⊢
  cases hb : m.registry.bundles.lookup bundleId with
  | some existing =>
      rw [hb] at hok
      by_cases he : existing = raw
      · simpa [he] using hb
      · simp [he] at hok
  | none =>
      rw [hb] at hok
      cases hread : readBundle raw with
      | error e => simp [hread] at hok
      | ok b =>
          by_cases hid : b.bundleId = bundleId
          · rcases hi : m.registry.ingestBundle o b with ⟨_ | _, r⟩
            · simp [hread, hid, hi] at hok
            · rcases hw : fsWrite m.files (bundleFilename bundleId) raw fault with ⟨_ | _, files⟩
              · simp [hread, hid, hi, hw] at hok
              · simp [hid, hi]
          · simp [hread, hid] at hok

/-! ### The whole run -/

/-- **Schemas evolve safely** in every run that restarts only when every registered version is
in a file: the versions of a type agree on their tags, the versions of a bundle that has been
accepted are served from then on, and the fields of a version stay. -/
theorem schema_evolution_safe (readBundle : BundleReader) (hwhole : ReadsWhole readBundle)
    (es : List RegistryAct) (m : RegistryHost)
    (h : Run (Guarded (RegistryHost.KeepsVersions readBundle)
      (Steps (RegistryHost.act readBundle))) RegistryHost.start es m) :
    (∀ typeId v v' n n' tag f f', m.registry.getTypeVersion typeId v = some n →
        m.registry.getTypeVersion typeId v' = some n' → n.fields.lookup tag = some f →
        n'.fields.lookup tag = some f' → f.fieldType = f'.fieldType ∧ f.enumRef = f'.enumRef) ∧
      (∀ o bundleId raw fault b outcome,
        m.KeepsVersions readBundle (.putBundle o bundleId raw fault) →
        (m.put readBundle o bundleId raw fault).1 = .ok outcome → readBundle raw = .ok b →
        ∀ typeId v, b.Defines typeId v → ∀ es' m',
          Run (Guarded (RegistryHost.KeepsVersions readBundle)
            (Steps (RegistryHost.act readBundle))) (m.put readBundle o bundleId raw fault).2
            es' m' → m'.registry.Serves typeId v) ∧
      ∀ typeId v n, m.registry.getTypeVersion typeId v = some n → ∀ es' m',
        Run (Guarded (RegistryHost.KeepsVersions readBundle)
          (Steps (RegistryHost.act readBundle))) m es' m' →
        ∃ n', m'.registry.getTypeVersion typeId v = some n' ∧ n'.fields = n.fields := by
  have hm := (RegistryHost.Evolved.start.run hwhole h).1
  refine ⟨?_, ?_, ?_⟩
  · intro typeId v v' n n' tag f f' hn hn' hf hf'
    obtain ⟨spec, hspec, hn⟩ := getTypeVersion_eq_some_iff.mp hn
    obtain ⟨spec', hspec', hn'⟩ := getTypeVersion_eq_some_iff.mp hn'
    obtain rfl := Option.some.inj (hspec.symm.trans hspec')
    have hwf := hm.wellFormed typeId spec hspec
    have hsig : f.signature = f'.signature := Option.some.inj
      ((hwf.signed v n tag f hn hf).symm.trans (hwf.signed v' n' tag f' hn' hf'))
    exact FieldSignature.mk.inj hsig
  · intro o bundleId raw fault b outcome hkeeps hok hread typeId v hdef es' m' hrun
    have hput := hm.step hwhole hkeeps (show m.act readBundle (.putBundle o bundleId raw fault) =
      some (m.put readBundle o bundleId raw fault).2 from rfl)
    exact (hput.run hwhole hrun).2.2 typeId v
      (hput.serves bundleId raw b (RegistryHost.put_accepted hok) hread typeId v hdef)
  · intro typeId v n hn es' m' hrun
    exact fields_mem_iff.mp
      ((hm.run hwhole hrun).2.1 typeId v n.fields (fields_mem_iff.mpr ⟨n, hn, rfl⟩))

/-! ### A version that is lost and comes back -/

/-- A field of a plain type. -/
def plainField (fieldType : String) : FieldDef where
  name := "x"
  fieldType := fieldType
  enumRef := none
  typeRef := none
  optional := none
  items := none

/-- The text of a bundle whose only field has that type. -/
def plainFieldText (bundleId fieldType : String) : Bytes :=
  ("\x7b\"registry_version\":1,\"bundle_id\":\"" ++ bundleId ++ "\",\"types\":\x7b\"T\":" ++
    "\x7b\"versions\":\x7b\"1\":\x7b\"fields\":\x7b\"1\":\x7b\"name\":\"x\",\"type\":\"" ++
    fieldType ++ "\"\x7d\x7d\x7d\x7d\x7d\x7d\x7d").toUTF8.toList

/-- Two bundles for one file, and one that has another type for the field of the first. -/
def evolvingReader : BundleReader :=
  tableReader [(plainFieldText "a/b" "string", fieldBundle "a/b" (plainField "string")),
    (plainText "a:b", plainBundle "a:b"),
    (plainFieldText "c" "u64", fieldBundle "c" (plainField "u64"))]

/-- A table none of whose texts begins with another one is read whole. -/
theorem readsWhole_tableReader {table : List (Bytes × RegistryBundle)}
    (h : ∀ p ∈ table, ∀ q ∈ table, q.1 <+: p.1 → q.1 = p.1) : ReadsWhole (tableReader table) := by
  intro raw bytes b b' hb hb'
  have hmem : ∀ {raw b}, tableReader table raw = .ok b → ∃ p ∈ table, p.1 = raw := by
    intro raw b hb
    rw [tableReader] at hb
    split at hb
    next b' hl =>
      obtain ⟨l, l', heq, -⟩ := List.lookup_eq_some_iff.mp hl
      exact ⟨(raw, b'), by simp [heq], rfl⟩
    · cases hb
  obtain ⟨p, hp, rfl⟩ := hmem hb
  obtain ⟨q, hq, hqp⟩ := hmem hb'
  have heq := h p hp q hq (hqp ▸ List.take_prefix bytes p.1)
  rw [← hqp, heq] at hb'
  exact Except.ok.inj (hb'.symm.trans hb)

/-- The registry after the first bundle. -/
def RegistryHost.withString : RegistryHost :=
  (RegistryHost.start.put evolvingReader .sorted "a/b" (plainFieldText "a/b" "string") none).2

/-- The version that such a bundle registers. -/
def plainVersion (fieldType : String) : TypeVersionSpec where
  version := 1
  fields := Finmap.insert 1 (plainField fieldType).spec ∅
  renderer := none

theorem fieldBundle_unambiguous (bundleId : String) (field : FieldDef) :
    (fieldBundle bundleId field).Unambiguous := by
  have single : ∀ {α : Type} {k key : String} {a a' : α},
      (Finmap.insert key a ∅ : HashMap String α).lookup k = some a' → a' = a := by
    intro α k key a a' h
    rw [LastWrite.lookup_insert] at h
    split at h
    · exact (Option.some.inj h).symm
    · simp at h
  intro typeId entry hentry version d hd k k' f f' tag hf hf' _ _
  obtain rfl := single hentry
  obtain rfl := single hd
  rw [single hf, single hf']

/-- The safety of the run that puts the first bundle: its field stays a string. -/
theorem schema_evolution_safe_withString :
    RegistryHost.withString.registry.getTypeVersion "T" 1 = some (plainVersion "string") ∧
      ∀ es' m', Run (Guarded (RegistryHost.KeepsVersions evolvingReader)
          (Steps (RegistryHost.act evolvingReader))) RegistryHost.withString es' m' →
        ∃ n, m'.registry.getTypeVersion "T" 1 = some n ∧
          n.fields = (plainVersion "string").fields := by
  have hread : evolvingReader (plainFieldText "a/b" "string") =
      .ok (fieldBundle "a/b" (plainField "string")) := by
    rw [evolvingReader, tableReader]
    simp
  have hrun : Run (Guarded (RegistryHost.KeepsVersions evolvingReader)
      (Steps (RegistryHost.act evolvingReader))) RegistryHost.start
      [.putBundle .sorted "a/b" (plainFieldText "a/b" "string") none] RegistryHost.withString := by
    refine Run.single ⟨fun b hb => ?_, rfl⟩
    rw [← Except.ok.inj (hread.symm.trans hb)]
    exact fieldBundle_unambiguous _ _
  have hversion : RegistryHost.withString.registry.getTypeVersion "T" 1 =
      some (plainVersion "string") := by decide +kernel
  exact ⟨hversion, (schema_evolution_safe evolvingReader
    (readsWhole_tableReader (by decide +kernel)) _ _ hrun).2.2 "T" 1 (plainVersion "string")
      hversion⟩

/-- **A version that changes**: its file is overwritten by another bundle, so a restart forgets
it, and the next bundle may give its field another type. -/
theorem version_changes :
    Run (Steps (RegistryHost.act evolvingReader)) RegistryHost.start
        [.putBundle .sorted "a/b" (plainFieldText "a/b" "string") none]
        RegistryHost.withString ∧
      RegistryHost.withString.registry.getTypeVersion "T" 1 = some (plainVersion "string") ∧
      ∃ m', Run (Steps (RegistryHost.act evolvingReader)) RegistryHost.withString
          [.putBundle .sorted "a:b" (plainText "a:b") none,
            .reopen (fun _ => .sorted) ["bundle_a_b.json"],
            .putBundle .sorted "c" (plainFieldText "c" "u64") none] m' ∧
        m'.registry.getTypeVersion "T" 1 = some (plainVersion "u64") := by
  refine ⟨Run.single rfl, by decide +kernel, ?_⟩
  obtain ⟨m', hrun, hversion⟩ := exists_run_of_foldlM (fun _ _ => True)
    (RegistryHost.act evolvingReader) RegistryHost.withString
    [.putBundle .sorted "a:b" (plainText "a:b") none,
      .reopen (fun _ => .sorted) ["bundle_a_b.json"],
      .putBundle .sorted "c" (plainFieldText "c" "u64") none]
    (fun m' => m'.registry.getTypeVersion "T" 1 = some (plainVersion "u64")) (by decide +kernel)
  exact ⟨m', hrun.of_guarded, hversion⟩

end Cxdb
