import Cxdb.RegistryFacts
import Cxdb.Transition

/-!
# Refused Bundles

A bundle that the registry refuses may have been merged in part. It leaves the registry as it
was exactly when the first of its entries that the registry does not have is the one that is
refused.

## Main results

* `Registry.ingestBundle_eq_self_iff`: when a merge changes nothing.
* `put_bundle_atomic_iff`: when a refused put changes nothing.
* `refused_bundle_merged`: a refused put after which no bundle is accepted.
-/

open ByteFormat FailingLoop IterationOrder Transition

namespace Cxdb

/-! ### The registry and its directory -/

/-- A registry with the files of its directory. -/
structure RegistryHost where
  registry : Registry
  files : BundleDir
  deriving DecidableEq

/-- A put, or a restart of the server. -/
inductive RegistryAct where
  | putBundle (o : HashOrder) (bundleId : String) (raw : Bytes) (fault : Option FileFault)
  | reopen (orders : String → HashOrder) (names : List String)

variable (readBundle : BundleReader)

/-- The outcome of a put. -/
def RegistryHost.put (m : RegistryHost) (o : HashOrder) (bundleId : String) (raw : Bytes)
    (fault : Option FileFault) : Except StoreError PutOutcome × RegistryHost :=
  let (x, registry, files) := m.registry.putBundle o readBundle m.files bundleId raw fault
  (x, { registry, files })

/-- A step. The names of the files come in any order; a registry that cannot be opened is no
state. -/
def RegistryHost.act (m : RegistryHost) : RegistryAct → Option RegistryHost
  | .putBundle o bundleId raw fault => some (m.put readBundle o bundleId raw fault).2
  | .reopen orders names =>
      if Lists m.files.keys names then
        match Registry.open readBundle orders (entriesIn m.files names) with
        | .ok registry => some { m with registry }
        | .error _ => none
      else none

/-- An empty directory, opened. -/
def RegistryHost.start : RegistryHost where
  registry := Registry.empty
  files := ∅

/-! ### What the registry has, and what it refuses -/

variable (o : HashOrder)

/-- The enums of a bundle, in the order in which they are merged. -/
def RegistryBundle.enumList (b : RegistryBundle) : List (String × EnumMapping) :=
  entriesIn b.enums (o.strings ["enums"] b.enums.keys)

/-- The types of a bundle, in the order in which they are merged. -/
def RegistryBundle.typeList (b : RegistryBundle) : List (String × TypeEntry) :=
  entriesIn b.types (o.strings ["types"] b.types.keys)

/-- The key has this value. -/
def Has {κ α : Type} [DecidableEq κ] (m : HashMap κ α) (p : κ × α) : Prop :=
  m.lookup p.1 = some p.2

/-- The key has another value. -/
def Conflicts {κ α : Type} [DecidableEq κ] (m : HashMap κ α) (p : κ × α) : Prop :=
  ∃ a, m.lookup p.1 = some a ∧ a ≠ p.2

/-- The tag of a field, with its signature. -/
def tagEntry (p : UInt64 × FieldSpec) : UInt64 × FieldSignature := (p.1, p.2.signature)

/-- The type has the version, with these fields, and misses no renderer. -/
def TypeSpec.HasVersion (typeId : String) (spec : TypeSpec) (entry : String × TypeVersion) :
    Prop :=
  ∃ n, readVersion o typeId entry = .ok n ∧ ∃ old, spec.versions.lookup n.version = some old ∧
    old.fields = n.fields ∧ (n.renderer = none ∨ old.renderer ≠ none)

/-- The version cannot be read, or is there with other fields, or the first of its tags that
the type does not have in this sense it has in another one. -/
def TypeSpec.RefusesVersion (typeId : String) (spec : TypeSpec)
    (entry : String × TypeVersion) : Prop :=
  (∃ e, readVersion o typeId entry = .error e) ∨
    ∃ n, readVersion o typeId entry = .ok n ∧
      ((∃ old, spec.versions.lookup n.version = some old ∧ old.fields ≠ n.fields) ∨
        spec.versions.lookup n.version = none ∧
          StopsAt (fun p => Conflicts spec.tagSchema (tagEntry p))
            (fun p => Has spec.tagSchema (tagEntry p)) (tagsOf o typeId entry n))

/-- The registry has the type and all these versions. -/
def HasType (types : HashMap String TypeSpec) (entry : String × TypeEntry) : Prop :=
  ∃ spec, types.lookup entry.1 = some spec ∧
    ∀ version ∈ versionsOf o entry, spec.HasVersion o entry.1 version

/-- The registry has the type, and the first version that it does not have it refuses. -/
def RefusesType (types : HashMap String TypeSpec) (entry : String × TypeEntry) : Prop :=
  ∃ spec, types.lookup entry.1 = some spec ∧
    StopsAt (spec.RefusesVersion o entry.1) (spec.HasVersion o entry.1) (versionsOf o entry)

/-- The first entry of the bundle that the registry does not have is one that it refuses. -/
def RegistryBundle.RefusedBeforeNews (b : RegistryBundle) (r : Registry) : Prop :=
  b.registryVersion = 0 ∨ StopsAt (Conflicts r.enums) (Has r.enums) (b.enumList o) ∨
    (∀ p ∈ b.enumList o, Has r.enums p) ∧
      StopsAt (RefusesType o r.types) (HasType o r.types) (b.typeList o)

/-- The registry has everything in the bundle. -/
def RegistryBundle.BringsNothing (b : RegistryBundle) (r : Registry) : Prop :=
  (∀ p ∈ b.enumList o, Has r.enums p) ∧ ∀ p ∈ b.typeList o, HasType o r.types p

/-- The first entry of the bundle that the registry does not have is one that it refuses, if
there is any. -/
def RegistryBundle.StopsBeforeNews (b : RegistryBundle) (r : Registry) : Prop :=
  b.RefusedBeforeNews o r ∨ b.BringsNothing o r

variable {o}

/-! ### Merges that change nothing -/

theorem insert_eq_self_iff {κ α : Type} [DecidableEq κ] {m : HashMap κ α} {k : κ} {a : α} :
    m.insert k a = m ↔ m.lookup k = some a := by
  constructor
  · intro h
    rw [← h, Finmap.lookup_insert]
  · intro h
    refine Finmap.ext_lookup fun k' => ?_
    rw [LastWrite.lookup_insert]
    split
    next hk => rw [hk, h]
    · rfl

/-- The tags of a version that is merged into a type without them. -/
theorem runTags_eq_error_iff (typeId : String) (entry : String × TypeVersion)
    (n : TypeVersionSpec) (schema : HashMap UInt64 FieldSignature) :
    (∃ e, run (mergeTag typeId) (tagsOf o typeId entry n) schema = (.error e, schema)) ↔
      StopsAt (fun p => Conflicts schema (tagEntry p)) (fun p => Has schema (tagEntry p))
        (tagsOf o typeId entry n) :=
  run_eq_error_iff (I := fun _ => True) (fun _ _ _ => ⟨trivial, graph_subset_enter⟩)
    (fun _ _ _ _ => graph_injective) (fun _ _ => enter_eq_ok_iff)
    (fun _ _ => enter_eq_error_iff) trivial

theorem TypeSpec.setRenderer_ne {spec : TypeSpec} {v : UInt32} {old : TypeVersionSpec}
    (hold : spec.versions.lookup v = some old) {renderer : Option RendererSpec}
    (hr : old.renderer ≠ renderer) : spec.setVersion v (old.withRenderer renderer) ≠ spec := by
  intro h
  have hversions := insert_eq_self_iff.mp (congrArg TypeSpec.versions h)
  rw [hold] at hversions
  exact hr (congrArg TypeVersionSpec.renderer (Option.some.inj hversions))

theorem mergeVersion_eq_ok_iff (typeId : String) (spec : TypeSpec)
    (entry : String × TypeVersion) :
    mergeVersion o typeId entry spec = (.ok (), spec) ↔ spec.HasVersion o typeId entry := by
  rcases mergeVersion_cases o typeId entry spec with
    ⟨e, hn, heq⟩ | ⟨n, hn, ⟨old, hold, ⟨hne, e, heq⟩ | ⟨hfields, hr, heq⟩ |
      ⟨hfields, hsome, hnone, heq⟩⟩ | ⟨hnone, heq⟩⟩
  · simp [heq, TypeSpec.HasVersion, hn]
  · simp [heq, TypeSpec.HasVersion, hn, hold, hne]
  · exact iff_of_true heq ⟨n, hn, old, hold, hfields, hr⟩
  · refine iff_of_false ?_ ?_
    · rw [heq]
      exact fun h => TypeSpec.setRenderer_ne hold (hnone ▸ hsome.symm) (Prod.mk.inj h).2
    · simp [TypeSpec.HasVersion, hn, hold, hsome, hnone]
  · refine iff_of_false ?_ (by simp [TypeSpec.HasVersion, hn, hnone])
    obtain ⟨tagSchema, -, ⟨e, hfail⟩ | ⟨-, hok⟩⟩ := mergeNewVersion_cases o typeId entry n spec
    · simp [heq, hfail]
    · rw [heq, hok]
      intro h
      have hversions := congrArg TypeSpec.versions (Prod.mk.inj h).2
      rw [insert_eq_self_iff.mp hversions] at hnone
      cases hnone

theorem mergeVersion_eq_error_iff (typeId : String) (spec : TypeSpec)
    (entry : String × TypeVersion) :
    (∃ e, mergeVersion o typeId entry spec = (.error e, spec)) ↔
      spec.RefusesVersion o typeId entry := by
  rcases mergeVersion_cases o typeId entry spec with
    ⟨e, hn, heq⟩ | ⟨n, hn, ⟨old, hold, ⟨hne, e, heq⟩ | ⟨hfields, -, heq⟩ |
      ⟨hfields, -, -, heq⟩⟩ | ⟨hnone, heq⟩⟩
  · exact iff_of_true ⟨e, heq⟩ (Or.inl ⟨e, hn⟩)
  · exact iff_of_true ⟨e, heq⟩ (Or.inr ⟨n, hn, Or.inl ⟨old, hold, hne⟩⟩)
  · simp [heq, TypeSpec.RefusesVersion, hn, hold, hfields]
  · simp [heq, TypeSpec.RefusesVersion, hn, hold, hfields]
  · have hrefuses : spec.RefusesVersion o typeId entry ↔
        StopsAt (fun p => Conflicts spec.tagSchema (tagEntry p))
          (fun p => Has spec.tagSchema (tagEntry p)) (tagsOf o typeId entry n) := by
      simp [TypeSpec.RefusesVersion, hn, hnone]
    rw [hrefuses, ← runTags_eq_error_iff, heq, mergeNewVersion_eq]
    cases run (mergeTag typeId) (tagsOf o typeId entry n) spec.tagSchema with
    | mk x tagSchema =>
        cases x with
        | ok u => simp
        | error e =>
            obtain ⟨versions, schema⟩ := spec
            simp

theorem runVersions_eq_ok_iff {spec : TypeSpec} (h : spec.WellFormed)
    (entry : String × TypeEntry) :
    run (mergeVersion o entry.1) (versionsOf o entry) spec = (.ok (), spec) ↔
      ∀ version ∈ versionsOf o entry, spec.HasVersion o entry.1 version :=
  run_eq_ok_iff (fun version _ => mergeVersion_grows o entry.1 version)
    (fun _ _ => TypeSpec.facts_injective) (fun version _ => mergeVersion_eq_ok_iff _ _ version) h

theorem runVersions_eq_error_iff {spec : TypeSpec} (h : spec.WellFormed)
    (entry : String × TypeEntry) :
    (∃ e, run (mergeVersion o entry.1) (versionsOf o entry) spec = (.error e, spec)) ↔
      StopsAt (spec.RefusesVersion o entry.1) (spec.HasVersion o entry.1)
        (versionsOf o entry) :=
  run_eq_error_iff (fun version _ => mergeVersion_grows o entry.1 version)
    (fun _ _ => TypeSpec.facts_injective) (fun version _ => mergeVersion_eq_ok_iff _ _ version)
    (fun version _ => mergeVersion_eq_error_iff _ _ version) h

/-- A merge of a type leaves the types alone if it has the type and leaves that alone. -/
theorem mergeType_eq_self_iff {types : HashMap String TypeSpec} {x : Except StoreError Unit}
    (entry : String × TypeEntry) :
    mergeType o entry types = (x, types) ↔ ∃ spec, types.lookup entry.1 = some spec ∧
      run (mergeVersion o entry.1) (versionsOf o entry) spec = (x, spec) := by
  rw [mergeType_eq, Prod.mk.injEq, insert_eq_self_iff]
  cases hl : types.lookup entry.1 with
  | none => simp
  | some spec =>
      simp only [Option.getD_some, Option.some.injEq]
      constructor
      · rintro ⟨hx, hs⟩
        exact ⟨spec, rfl, Prod.ext hx hs.symm⟩
      · rintro ⟨_, rfl, hrun⟩
        rw [hrun]
        exact ⟨rfl, rfl⟩

theorem mergeType_eq_ok_iff {types : HashMap String TypeSpec} (h : TypesWellFormed types)
    (entry : String × TypeEntry) :
    mergeType o entry types = (.ok (), types) ↔ HasType o types entry := by
  rw [mergeType_eq_self_iff]
  exact exists_congr fun spec => and_congr_right fun hl =>
    runVersions_eq_ok_iff (h _ _ hl) entry

theorem mergeType_eq_error_iff {types : HashMap String TypeSpec} (h : TypesWellFormed types)
    (entry : String × TypeEntry) :
    (∃ e, mergeType o entry types = (.error e, types)) ↔ RefusesType o types entry := by
  simp only [mergeType_eq_self_iff]
  rw [exists_comm]
  simp only [exists_and_left]
  exact exists_congr fun spec => and_congr_right fun hl =>
    runVersions_eq_error_iff (h _ _ hl) entry

theorem runEnums_eq_ok_iff (b : RegistryBundle) (enums : HashMap String EnumMapping) :
    run mergeEnum (b.enumList o) enums = (.ok (), enums) ↔ ∀ p ∈ b.enumList o, Has enums p :=
  run_eq_ok_iff (I := fun _ => True) (fun _ _ _ => ⟨trivial, graph_subset_enter⟩)
    (fun _ _ _ _ => graph_injective) (fun _ _ => enter_eq_ok_iff) trivial

theorem runEnums_eq_error_iff (b : RegistryBundle) (enums : HashMap String EnumMapping) :
    (∃ e, run mergeEnum (b.enumList o) enums = (.error e, enums)) ↔
      StopsAt (Conflicts enums) (Has enums) (b.enumList o) :=
  run_eq_error_iff (I := fun _ => True) (fun _ _ _ => ⟨trivial, graph_subset_enter⟩)
    (fun _ _ _ _ => graph_injective) (fun _ _ => enter_eq_ok_iff)
    (fun _ _ => enter_eq_error_iff) trivial

theorem runTypes_snd_eq_iff {types : HashMap String TypeSpec} (h : TypesWellFormed types)
    (b : RegistryBundle) :
    (run (mergeType o) (b.typeList o) types).2 = types ↔
      StopsAt (RefusesType o types) (HasType o types) (b.typeList o) ∨
        ∀ p ∈ b.typeList o, HasType o types p :=
  run_snd_eq_iff (fun entry _ => mergeType_grows o entry) (fun _ _ => typeFacts_injective)
    (fun entry _ => mergeType_eq_ok_iff h entry) (fun entry _ => mergeType_eq_error_iff h entry) h

theorem runTypes_eq_error_iff {types : HashMap String TypeSpec} (h : TypesWellFormed types)
    (b : RegistryBundle) :
    (∃ e, run (mergeType o) (b.typeList o) types = (.error e, types)) ↔
      StopsAt (RefusesType o types) (HasType o types) (b.typeList o) :=
  run_eq_error_iff (fun entry _ => mergeType_grows o entry) (fun _ _ => typeFacts_injective)
    (fun entry _ => mergeType_eq_ok_iff h entry) (fun entry _ => mergeType_eq_error_iff h entry) h

/-- The registry after a merge. -/
theorem Registry.ingestBundle_snd (r : Registry) (b : RegistryBundle) :
    (r.ingestBundle o b).2 =
      if b.registryVersion = 0 then r
      else match run mergeEnum (b.enumList o) r.enums with
        | (.error _, enums) => { r with enums }
        | (.ok (), enums) =>
            { r with enums, types := (run (mergeType o) (b.typeList o) r.types).2 } := by
  have henums : entriesIn b.enums (o.strings ["enums"] b.enums.keys) = b.enumList o := rfl
  have htypes : entriesIn b.types (o.strings ["types"] b.types.keys) = b.typeList o := rfl
  rw [Registry.ingestBundle, henums, htypes]
  split
  · rfl
  · dsimp only
    generalize run mergeEnum (b.enumList o) r.enums = merged
    rcases merged with ⟨_ | _, enums⟩
    · rfl
    · dsimp only
      generalize run (mergeType o) (b.typeList o) r.types = merged
      rcases merged with ⟨_ | _, types⟩ <;> rfl

/-- **When a merge changes nothing.** -/
theorem Registry.ingestBundle_eq_self_iff {r : Registry} (h : TypesWellFormed r.types)
    (b : RegistryBundle) : (r.ingestBundle o b).2 = r ↔ b.StopsBeforeNews o r := by
  have hstops : b.StopsBeforeNews o r ↔ b.registryVersion = 0 ∨
      StopsAt (Conflicts r.enums) (Has r.enums) (b.enumList o) ∨
        (∀ p ∈ b.enumList o, Has r.enums p) ∧
          (StopsAt (RefusesType o r.types) (HasType o r.types) (b.typeList o) ∨
            ∀ p ∈ b.typeList o, HasType o r.types p) := by
    rw [RegistryBundle.StopsBeforeNews, RegistryBundle.RefusedBeforeNews,
      RegistryBundle.BringsNothing]
    tauto
  rw [hstops, Registry.ingestBundle_snd, ← runTypes_snd_eq_iff h, ← runEnums_eq_ok_iff,
    ← runEnums_eq_error_iff]
  obtain ⟨bundles, types, enums, last⟩ := r
  split
  next hv => simp [hv]
  next hv =>
    rcases run mergeEnum (b.enumList o) enums with ⟨_ | _, enums'⟩ <;> simp [hv, and_comm]

/-! ### Reachable registries -/

/-- **A merge takes nothing away.** -/
theorem Registry.ingestBundle_grows {r : Registry} (h : TypesWellFormed r.types)
    (o : HashOrder) (b : RegistryBundle) :
    TypesWellFormed (r.ingestBundle o b).2.types ∧
      typeFacts r.types ⊆ typeFacts (r.ingestBundle o b).2.types ∧
      graph r.enums ⊆ graph (r.ingestBundle o b).2.enums := by
  have henums : graph r.enums ⊆ graph (run mergeEnum (b.enumList o) r.enums).2 :=
    facts_subset_run fun _ _ _ => graph_subset_enter
  have htypes : TypesWellFormed (run (mergeType o) (b.typeList o) r.types).2 ∧
      typeFacts r.types ⊆ typeFacts (run (mergeType o) (b.typeList o) r.types).2 := by
    refine run_keeps (P := fun types => TypesWellFormed types ∧
      typeFacts r.types ⊆ typeFacts types) (fun entry _ types ht => ?_) ⟨h, Set.Subset.refl _⟩
    obtain ⟨hwf, hsub⟩ := mergeType_grows o entry ht.1
    exact ⟨hwf, ht.2.trans hsub⟩
  rw [Registry.ingestBundle_snd]
  split
  · exact ⟨h, Set.Subset.refl _, Set.Subset.refl _⟩
  · rcases hrun : run mergeEnum (b.enumList o) r.enums with ⟨_ | _, enums'⟩
    · rw [hrun] at henums
      exact ⟨h, Set.Subset.refl _, henums⟩
    · rw [hrun] at henums
      exact ⟨htypes.1, htypes.2, henums⟩

/-- What is kept beside the bundles a merge does not touch. -/
theorem Registry.ingestBundle_bundles (r : Registry) (o : HashOrder) (b : RegistryBundle) :
    (r.ingestBundle o b).2.bundles = r.bundles ∧
      (r.ingestBundle o b).2.lastBundleId = r.lastBundleId := by
  rw [Registry.ingestBundle_snd]
  split
  · exact ⟨rfl, rfl⟩
  · rcases run mergeEnum (b.enumList o) r.enums with ⟨_ | _, enums⟩ <;> exact ⟨rfl, rfl⟩

variable {readBundle}

/-- A put that comes to the merge. -/
structure RegistryHost.Merges (m : RegistryHost) (readBundle : BundleReader) (bundleId : String)
    (raw : Bytes) (b : RegistryBundle) : Prop where
  fresh : m.registry.bundles.lookup bundleId = none
  read : readBundle raw = .ok b
  named : b.bundleId = bundleId

/-- The registry after a bundle has been stored. -/
def Registry.stored (r : Registry) (bundleId : String) (raw : Bytes) : Registry :=
  { r with
    bundles := r.bundles.insert bundleId raw
    lastBundleId := some bundleId }

/-- **What a put does**, case by case. -/
theorem RegistryHost.put_cases (m : RegistryHost) (readBundle : BundleReader) (o : HashOrder)
    (bundleId : String) (raw : Bytes) (fault : Option FileFault) :
    ((m.put readBundle o bundleId raw fault).2 = m ∧
        (∀ b, ¬ m.Merges readBundle bundleId raw b) ∧
        (m.put readBundle o bundleId raw fault).1 ≠ .ok .created) ∨
      ∃ b, m.Merges readBundle bundleId raw b ∧
        ((∃ e r, m.registry.ingestBundle o b = (.error e, r) ∧
            m.put readBundle o bundleId raw fault = (.error e, { m with registry := r })) ∨
          ∃ r, m.registry.ingestBundle o b = (.ok (), r) ∧
            ((∃ e files, fsWrite m.files (bundleFilename bundleId) raw fault = (.error e, files) ∧
                m.put readBundle o bundleId raw fault =
                  (.error e, { registry := r, files })) ∨
              (fault = none ∧ m.put readBundle o bundleId raw fault =
                (.ok .created,
                  { registry := r.stored bundleId raw
                    files := m.files.insert (bundleFilename bundleId) raw })))) := by
  obtain ⟨r, files⟩ := m
  rw [RegistryHost.put, Registry.putBundle]
  cases hb : r.bundles.lookup bundleId with
  | some existing =>
      refine Or.inl ⟨?_, fun b hm => ?_, ?_⟩
      · by_cases he : existing = raw <;> simp [he]
      · rw [hm.fresh] at hb
        cases hb
      · by_cases he : existing = raw <;> simp [he]
  | none =>
      cases hread : readBundle raw with
      | error e =>
          refine Or.inl ⟨rfl, fun b hm => ?_, by simp⟩
          rw [hm.read] at hread
          cases hread
      | ok b =>
          by_cases hid : b.bundleId = bundleId
          · refine Or.inr ⟨b, ⟨hb, hread, hid⟩, ?_⟩
            simp only [hid, ne_eq, not_true_eq_false, if_false]
            rcases hingest : r.ingestBundle o b with ⟨e | u, r'⟩
            · exact Or.inl ⟨e, r', rfl, rfl⟩
            · refine Or.inr ⟨r', rfl, ?_⟩
              cases fault with
              | none => exact Or.inr ⟨rfl, rfl⟩
              | some fault =>
                  refine Or.inl ?_
                  cases fault with
                  | unopened => exact ⟨_, _, rfl, rfl⟩
                  | cut bytes => exact ⟨_, _, rfl, rfl⟩
          · refine Or.inl ⟨by simp [hid], fun b' hm => ?_, by simp [hid]⟩
            obtain rfl := Except.ok.inj (hread.symm.trans hm.read)
            exact hid hm.named

/-- A put that fails leaves what the merge leaves. -/
theorem RegistryHost.put_registry_of_error {m : RegistryHost} {o : HashOrder} {bundleId : String}
    {raw : Bytes} {fault : Option FileFault} {e : StoreError}
    (hfail : (m.put readBundle o bundleId raw fault).1 = .error e) :
    ((∀ b, ¬ m.Merges readBundle bundleId raw b) ∧
        (m.put readBundle o bundleId raw fault).2.registry = m.registry) ∨
      ∃ b, m.Merges readBundle bundleId raw b ∧
        (m.put readBundle o bundleId raw fault).2.registry = (m.registry.ingestBundle o b).2 := by
  rcases m.put_cases readBundle o bundleId raw fault with
    ⟨hsame, hno, -⟩ | ⟨b, hm, ⟨e', r, hi, hput⟩ | ⟨r, hi, ⟨e', files, -, hput⟩ | ⟨-, hput⟩⟩⟩
  · exact Or.inl ⟨hno, congrArg RegistryHost.registry hsame⟩
  · exact Or.inr ⟨b, hm, by rw [hput, hi]⟩
  · exact Or.inr ⟨b, hm, by rw [hput, hi]⟩
  · rw [hput] at hfail
    cases hfail

/-- A pass over the files keeps the types well formed. -/
theorem Registry.loadFile_wellFormed {r : Registry} (h : TypesWellFormed r.types)
    (orders : String → HashOrder) (entry : String × Bytes) :
    TypesWellFormed (r.loadFile readBundle orders entry).2.types := by
  rw [Registry.loadFile]
  split
  · exact h
  · cases readBundle entry.2 with
    | error e => exact h
    | ok b =>
        have hgrow := (Registry.ingestBundle_grows h (orders entry.1) b).1
        simp only
        rcases hi : r.ingestBundle (orders entry.1) b with ⟨_ | _, r'⟩ <;> rw [hi] at hgrow <;>
          exact hgrow

/-- What `open` gives it has loaded. -/
theorem Registry.run_of_open {orders : String → HashOrder} {entries : List (String × Bytes)}
    {r : Registry} (h : Registry.open readBundle orders entries = .ok r) :
    run (Registry.loadFile readBundle orders) entries Registry.empty = (.ok (), r) := by
  rw [Registry.open] at h
  split at h
  · cases h
  next heq => rw [heq, Except.ok.inj h]

theorem TypesWellFormed.empty : TypesWellFormed Registry.empty.types := by
  intro typeId spec h
  simp [Registry.empty] at h

/-- **The types of a reachable registry are well formed.** -/
theorem RegistryHost.wellFormed_step {m m' : RegistryHost} {a : RegistryAct}
    (h : TypesWellFormed m.registry.types) (hs : m.act readBundle a = some m') :
    TypesWellFormed m'.registry.types := by
  cases a with
  | putBundle o bundleId raw fault =>
      obtain rfl := Option.some.inj hs
      rcases m.put_cases readBundle o bundleId raw fault with
        ⟨hsame, -, -⟩ | ⟨b, -, ⟨e', r, hi, hput⟩ | ⟨r, hi, ⟨e', files, -, hput⟩ | ⟨-, hput⟩⟩⟩
      · rwa [hsame]
      all_goals
        rw [hput]
        have hgrow := (Registry.ingestBundle_grows h o b).1
        rw [hi] at hgrow
        exact hgrow
  | reopen orders names =>
      rw [RegistryHost.act] at hs
      split at hs
      · split at hs
        next r hr =>
          obtain rfl := Option.some.inj hs
          have hload : ∀ entry ∈ entriesIn m.files names, ∀ r : Registry,
              TypesWellFormed r.types →
                TypesWellFormed (r.loadFile readBundle orders entry).2.types :=
            fun entry _ r hr => Registry.loadFile_wellFormed hr orders entry
          have hwf := run_keeps (P := fun r : Registry => TypesWellFormed r.types) hload
            TypesWellFormed.empty
          rwa [Registry.run_of_open hr] at hwf
        · cases hs
      · cases hs

variable {m : RegistryHost} {es : List RegistryAct}

theorem RegistryHost.wellFormed_of_run
    (h : Run (Steps (RegistryHost.act readBundle)) RegistryHost.start es m) :
    TypesWellFormed m.registry.types :=
  h.invariant (I := fun _ m => TypesWellFormed m.registry.types) TypesWellFormed.empty
    fun _ _ _ _ hI hs => RegistryHost.wellFormed_step hI hs

/-! ### When a refused put changes nothing -/

/-- The registry accepts a bundle, as new or as one that it has. -/
def RegistryHost.Accepts (m : RegistryHost) (readBundle : BundleReader) (o : HashOrder)
    (bundleId : String) (raw : Bytes) : Prop :=
  ∃ outcome, (m.put readBundle o bundleId raw none).1 = .ok outcome

/-- What a registry accepts does not depend on its directory. -/
theorem RegistryHost.put_fst_eq {m m' : RegistryHost} (h : m.registry = m'.registry)
    (o : HashOrder) (bundleId : String) (raw : Bytes) :
    (m.put readBundle o bundleId raw none).1 = (m'.put readBundle o bundleId raw none).1 := by
  rw [RegistryHost.put, RegistryHost.put, Registry.putBundle, Registry.putBundle, h]
  cases m'.registry.bundles.lookup bundleId with
  | some existing => by_cases he : existing = raw <;> simp [he]
  | none =>
      cases readBundle raw with
      | error e => rfl
      | ok b =>
          by_cases hid : b.bundleId = bundleId
          · simp only [hid, ne_eq, not_true_eq_false, if_false, fsWrite]
            rcases m'.registry.ingestBundle o b with ⟨_ | _, r⟩ <;> rfl
          · simp [hid]

/-- **A refused put** leaves the registry as it was, and ready for what it was ready for, if and
only if it does not come to the merge or the merge stops before it brings anything new. -/
theorem put_bundle_atomic_iff (readBundle : BundleReader) (es : List RegistryAct)
    (m : RegistryHost) (o : HashOrder) (bundleId : String) (raw : Bytes)
    (fault : Option FileFault) (e : StoreError)
    (h : Run (Steps (RegistryHost.act readBundle)) RegistryHost.start es m)
    (hfail : (m.put readBundle o bundleId raw fault).1 = .error e) :
    ((m.put readBundle o bundleId raw fault).2.registry = m.registry ∧
        ∀ o' bundleId' raw', m.Accepts readBundle o' bundleId' raw' →
          (m.put readBundle o bundleId raw fault).2.Accepts readBundle o' bundleId' raw') ↔
      ∀ b, m.Merges readBundle bundleId raw b → b.StopsBeforeNews o m.registry := by
  have hwf := RegistryHost.wellFormed_of_run h
  have hkept : (m.put readBundle o bundleId raw fault).2.registry = m.registry ↔
      ∀ b, m.Merges readBundle bundleId raw b → b.StopsBeforeNews o m.registry := by
    rcases RegistryHost.put_registry_of_error hfail with ⟨hno, hsame⟩ | ⟨b, hm, hmerged⟩
    · exact iff_of_true hsame fun b hm => absurd hm (hno b)
    · rw [hmerged, Registry.ingestBundle_eq_self_iff hwf]
      constructor
      · intro hstops b' hm'
        rwa [← Except.ok.inj (hm.read.symm.trans hm'.read)]
      · exact fun hall => hall b hm
  rw [← hkept]
  refine ⟨And.left, fun hsame => ⟨hsame, ?_⟩⟩
  rintro o' bundleId' raw' ⟨outcome, hout⟩
  exact ⟨outcome, by rw [RegistryHost.put_fst_eq hsame, hout]⟩

/-! ### A refused bundle that stays -/

/-- A reader that knows some texts. -/
def tableReader (table : List (Bytes × RegistryBundle)) : BundleReader := fun raw =>
  match table.lookup raw with
  | some b => .ok b
  | none => .error "expected value at line 1 column 1"

/-- A bundle without types and enums, with the given id. -/
def plainBundle (bundleId : String) : RegistryBundle where
  registryVersion := 1
  bundleId := bundleId
  types := ∅
  enums := ∅

/-- The text of that bundle. -/
def plainText (bundleId : String) : Bytes :=
  ("\x7b\"registry_version\":1,\"bundle_id\":\"" ++ bundleId ++ "\"\x7d").toUTF8.toList

/-- A bundle with one version of one type, which has one field. -/
def fieldBundle (bundleId : String) (field : FieldDef) : RegistryBundle where
  registryVersion := 1
  bundleId := bundleId
  types := Finmap.insert "T" { versions := Finmap.insert "1" {
    fields := Finmap.insert "1" field ∅, renderer := none } ∅ } ∅
  enums := ∅

/-- A field whose type is an enum. -/
def enumField : FieldDef where
  name := "x"
  fieldType := "u8"
  enumRef := some "E"
  typeRef := none
  optional := none
  items := none

/-- The text of a bundle whose only field is that one. -/
def enumFieldText : Bytes :=
  ("\x7b\"registry_version\":1,\"bundle_id\":\"a\",\"types\":\x7b\"T\":\x7b\"versions\":" ++
    "\x7b\"1\":\x7b\"fields\":\x7b\"1\":\x7b\"name\":\"x\",\"type\":\"u8\",\"enum\":\"E\"" ++
    "\x7d\x7d\x7d\x7d\x7d\x7d\x7d").toUTF8.toList

def enumFieldReader : BundleReader :=
  tableReader [(enumFieldText, fieldBundle "a" enumField), (plainText "b", plainBundle "b")]

theorem enumFieldReader_missing :
    (RegistryHost.start.put enumFieldReader .sorted "a" enumFieldText none).1 =
      .error (.invalidInput "missing enum E for type T version 1 tag 1") := by
  decide +kernel

/-- The equivalence at a bundle that is refused since its enum is missing. -/
theorem put_bundle_atomic_missing_enum :
    ((RegistryHost.start.put enumFieldReader .sorted "a" enumFieldText none).2.registry =
          RegistryHost.start.registry ∧
        ∀ o' bundleId' raw', RegistryHost.start.Accepts enumFieldReader o' bundleId' raw' →
          (RegistryHost.start.put enumFieldReader .sorted "a" enumFieldText none).2.Accepts
            enumFieldReader o' bundleId' raw') ↔
      ∀ b, RegistryHost.start.Merges enumFieldReader "a" enumFieldText b →
        b.StopsBeforeNews .sorted RegistryHost.start.registry :=
  put_bundle_atomic_iff enumFieldReader [] RegistryHost.start .sorted "a" enumFieldText none _
    .start enumFieldReader_missing

/-- **A refused bundle stays**: its type remains in the registry without its enum, and no other
bundle is accepted any more. -/
theorem refused_bundle_merged :
    (RegistryHost.start.put enumFieldReader .sorted "a" enumFieldText none).1 =
        .error (.invalidInput "missing enum E for type T version 1 tag 1") ∧
      (RegistryHost.start.put enumFieldReader .sorted "a" enumFieldText none).2.registry ≠
        RegistryHost.start.registry ∧
      RegistryHost.start.Accepts enumFieldReader .sorted "b" (plainText "b") ∧
      ¬ (RegistryHost.start.put enumFieldReader .sorted "a" enumFieldText none).2.Accepts
          enumFieldReader .sorted "b" (plainText "b") := by
  refine ⟨enumFieldReader_missing, by decide +kernel, ⟨.created, by decide +kernel⟩, ?_⟩
  rintro ⟨outcome, hout⟩
  have hrefused : ((RegistryHost.start.put enumFieldReader .sorted "a" enumFieldText none).2.put
      enumFieldReader .sorted "b" (plainText "b") none).1 =
        .error (.invalidInput "missing enum E for type T version 1 tag 1") := by
    decide +kernel
  rw [hrefused] at hout
  cases hout

end Cxdb
