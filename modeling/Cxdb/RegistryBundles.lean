import Cxdb.RegistryPuts

/-!
# What a Bundle Says

The facts of a whole bundle, and what merging a bundle does to the facts of a registry. What
a bundle says does not depend on the order in which it is read, unless it spells a tag of a
version in two ways.

## Main results

* `RegistryBundle.facts_eq`: what a bundle says does not depend on the order of its maps.
* `Registry.ingestBundle_facts`: what a merge adds that succeeds.
* `Registry.exists_ingestBundle`: a merge succeeds when nothing contradicts it.
* `Registry.facts_injective`: a registry is known by its facts, but for the last bundle.
-/

open ByteFormat FailingLoop IterationOrder

namespace Cxdb

/-! ### The order of a bundle's maps -/

/-- No version spells a tag in two ways that differ in their field. -/
def TypeVersion.Unambiguous (d : TypeVersion) : Prop :=
  ∀ k k' f f' tag, d.fields.lookup k = some f → d.fields.lookup k' = some f' →
    Decimal.parseU64 k = some tag → Decimal.parseU64 k' = some tag → f.spec = f'.spec

def RegistryBundle.Unambiguous (b : RegistryBundle) : Prop :=
  ∀ typeId entry, b.types.lookup typeId = some entry →
    ∀ version d, entry.versions.lookup version = some d → d.Unambiguous

/-- The version numbers and the tags of a bundle are numbers. -/
def RegistryBundle.Readable (b : RegistryBundle) : Prop :=
  ∀ typeId entry, b.types.lookup typeId = some entry →
    ∀ version d, entry.versions.lookup version = some d →
      (∃ v, Decimal.parseU32 version = some v) ∧
        ∀ k f, d.fields.lookup k = some f → ∃ tag, Decimal.parseU64 k = some tag

/-- The fields that have been read: those that were there, and those of the list. -/
theorem lookup_normalizeFields {l : List (String × FieldDef)}
    {fields fields' : HashMap UInt64 FieldSpec} (h : normalizeFields l fields = .ok fields')
    {tag : UInt64} {g : FieldSpec} (hg : fields'.lookup tag = some g) :
    (∃ p ∈ l, Decimal.parseU64 p.1 = some tag ∧ p.2.spec = g) ∨ fields.lookup tag = some g := by
  induction l generalizing fields with
  | nil =>
      rw [Except.ok.inj h]
      exact Or.inr hg
  | cons p l ih =>
      obtain ⟨k, f⟩ := p
      rw [normalizeFields] at h
      cases hk : Decimal.parseU64 k with
      | none =>
          rw [hk] at h
          cases h
      | some t =>
          rw [hk] at h
          rcases ih h with ⟨p, hp, hparse, hspec⟩ | hrest
          · exact Or.inl ⟨p, List.mem_cons_of_mem _ hp, hparse, hspec⟩
          · rw [LastWrite.lookup_insert] at hrest
            split at hrest
            next htag =>
              exact Or.inl ⟨(k, f), by simp, by rw [hk, htag], Option.some.inj hrest⟩
            · exact Or.inr hrest

/-- Every tag of the list has been read. -/
theorem normalizeFields_keys {l : List (String × FieldDef)}
    {fields fields' : HashMap UInt64 FieldSpec} (h : normalizeFields l fields = .ok fields')
    {tag : UInt64}
    (hp : (∃ p ∈ l, Decimal.parseU64 p.1 = some tag) ∨ ∃ g, fields.lookup tag = some g) :
    ∃ g, fields'.lookup tag = some g := by
  induction l generalizing fields with
  | nil =>
      rw [← Except.ok.inj h]
      simpa using hp
  | cons p l ih =>
      obtain ⟨k, f⟩ := p
      rw [normalizeFields] at h
      cases hk : Decimal.parseU64 k with
      | none =>
          rw [hk] at h
          cases h
      | some t =>
          rw [hk] at h
          refine ih h ?_
          simp only [LastWrite.lookup_insert]
          rcases hp with ⟨p, hp, hparse⟩ | ⟨g, hg⟩
          · rcases List.mem_cons.mp hp with rfl | hp
            · obtain rfl := Option.some.inj (hk.symm.trans hparse)
              exact Or.inr ⟨f.spec, by simp⟩
            · exact Or.inl ⟨p, hp, hparse⟩
          · by_cases htag : tag = t
            · exact Or.inr ⟨f.spec, by simp [htag]⟩
            · exact Or.inr ⟨g, by simp [htag, hg]⟩

/-- Reading fields fails only at a tag that is none. -/
theorem normalizeFields_cases (l : List (String × FieldDef))
    (fields : HashMap UInt64 FieldSpec) :
    ((∀ p ∈ l, ∃ tag, Decimal.parseU64 p.1 = some tag) ∧
        ∃ fields', normalizeFields l fields = .ok fields') ∨
      ((∃ p ∈ l, Decimal.parseU64 p.1 = none) ∧
        normalizeFields l fields = .error (.invalidInput "invalid field tag")) := by
  induction l generalizing fields with
  | nil => exact Or.inl ⟨by simp, fields, rfl⟩
  | cons p l ih =>
      obtain ⟨k, f⟩ := p
      rw [normalizeFields]
      cases hk : Decimal.parseU64 k with
      | none => exact Or.inr ⟨⟨(k, f), by simp, hk⟩, rfl⟩
      | some t =>
          rcases ih (fields.insert t f.spec) with ⟨hall, hok⟩ | ⟨⟨p, hp, hnone⟩, herr⟩
          · exact Or.inl ⟨by simpa [hk] using hall, hok⟩
          · exact Or.inr ⟨⟨p, List.mem_cons_of_mem _ hp, hnone⟩, herr⟩

/-- **The order does not matter** for a version that spells every tag once. -/
theorem normalizeVersion_eq {d : TypeVersion} (h : d.Unambiguous) (o o' : HashOrder)
    (place : List String) (version : UInt32) :
    normalizeVersion o place version d = normalizeVersion o' place version d := by
  have hmem : ∀ (o : HashOrder) k f,
      (k, f) ∈ entriesIn d.fields (o.strings place d.fields.keys) ↔ d.fields.lookup k = some f :=
    fun o k f => mem_entriesIn (o.strings_list _ _)
  have hle : ∀ {o o' : HashOrder} {F F' : HashMap UInt64 FieldSpec},
      normalizeFields (entriesIn d.fields (o.strings place d.fields.keys)) ∅ = .ok F →
      normalizeFields (entriesIn d.fields (o'.strings place d.fields.keys)) ∅ = .ok F' →
      ∀ tag g, F.lookup tag = some g → F'.lookup tag = some g := by
    intro o o' F F' hF hF' tag g hg
    rcases lookup_normalizeFields hF hg with ⟨⟨k, f⟩, hp, hparse, hspec⟩ | hno
    · rw [hmem] at hp
      obtain ⟨g', hg'⟩ := normalizeFields_keys hF'
        (Or.inl ⟨(k, f), (hmem o' k f).mpr hp, hparse⟩)
      rcases lookup_normalizeFields hF' hg' with ⟨⟨k', f'⟩, hp', hparse', hspec'⟩ | hno
      · rw [hmem] at hp'
        rw [hg', ← hspec, ← hspec', h k k' f f' tag hp hp' hparse hparse']
      · simp at hno
    · simp at hno
  rw [normalizeVersion, normalizeVersion]
  rcases normalizeFields_cases (entriesIn d.fields (o.strings place d.fields.keys)) ∅ with
    ⟨hall, F, hF⟩ | ⟨⟨⟨k, f⟩, hp, hnone⟩, herr⟩
  · rcases normalizeFields_cases (entriesIn d.fields (o'.strings place d.fields.keys)) ∅ with
      ⟨-, F', hF'⟩ | ⟨⟨⟨k, f⟩, hp, hnone⟩, -⟩
    · have hFF : F = F' := Finmap.ext_lookup fun tag => Option.ext fun g =>
        ⟨hle hF hF' tag g, hle hF' hF tag g⟩
      rw [hF, hF', hFF]
    · rw [hmem, ← hmem o] at hp
      obtain ⟨tag, htag⟩ := hall _ hp
      rw [hnone] at htag
      cases htag
  · rcases normalizeFields_cases (entriesIn d.fields (o'.strings place d.fields.keys)) ∅ with
      ⟨hall, -⟩ | ⟨-, herr'⟩
    · rw [hmem, ← hmem o'] at hp
      obtain ⟨tag, htag⟩ := hall _ hp
      rw [hnone] at htag
      cases htag
    · rw [herr, herr']

theorem readVersion_eq {entry : String × TypeVersion} (h : entry.2.Unambiguous)
    (o o' : HashOrder) (typeId : String) :
    readVersion o typeId entry = readVersion o' typeId entry := by
  rw [readVersion, readVersion]
  cases parseVersion entry.1 with
  | error e => rfl
  | ok v => exact normalizeVersion_eq h o o' _ v

/-- A version that can be read. -/
theorem exists_readVersion {entry : String × TypeVersion} (o : HashOrder) (typeId : String)
    (hv : ∃ v, Decimal.parseU32 entry.1 = some v)
    (hk : ∀ k f, entry.2.fields.lookup k = some f → ∃ tag, Decimal.parseU64 k = some tag) :
    ∃ n, readVersion o typeId entry = .ok n := by
  obtain ⟨v, hv⟩ := hv
  rw [readVersion, parseVersion, hv]
  simp only [normalizeVersion]
  rcases normalizeFields_cases (entriesIn entry.2.fields
      (o.strings ["types", typeId, entry.1] entry.2.fields.keys)) ∅ with
    ⟨-, F, hF⟩ | ⟨⟨⟨k, f⟩, hp, hnone⟩, -⟩
  · rw [hF]
    exact ⟨_, rfl⟩
  · obtain ⟨tag, htag⟩ := hk k f ((mem_entriesIn (o.strings_list _ _)).mp hp)
    rw [hnone] at htag
    cases htag

/-! ### Facts -/

/-- What a registry knows: about its types, its enums and its bundles. -/
inductive RegistryFact where
  | type (fact : String × Option SpecFact)
  | enum (entry : String × EnumMapping)
  | bundle (entry : String × Bytes)

/-- What a registry knows. -/
def Registry.facts (r : Registry) : Set RegistryFact := fun
  | .type p => p ∈ typeFacts r.types
  | .enum p => p ∈ graph r.enums
  | .bundle p => p ∈ graph r.bundles

/-- What a bundle says. -/
def RegistryBundle.facts (o : HashOrder) (b : RegistryBundle) : Set RegistryFact := fun
  | .type p => p ∈ gathered (entryFacts o) (b.typeList o)
  | .enum p => p ∈ graph b.enums
  | .bundle _ => False

section Membership

variable {r : Registry} {b : RegistryBundle} {o : HashOrder}

@[simp] theorem Registry.type_mem_facts {p : String × Option SpecFact} :
    .type p ∈ r.facts ↔ p ∈ typeFacts r.types := Iff.rfl

@[simp] theorem Registry.enum_mem_facts {p : String × EnumMapping} :
    .enum p ∈ r.facts ↔ r.enums.lookup p.1 = some p.2 := Iff.rfl

@[simp] theorem Registry.bundle_mem_facts {p : String × Bytes} :
    .bundle p ∈ r.facts ↔ r.bundles.lookup p.1 = some p.2 := Iff.rfl

@[simp] theorem RegistryBundle.type_mem_facts {p : String × Option SpecFact} :
    .type p ∈ b.facts o ↔ p ∈ gathered (entryFacts o) (b.typeList o) := Iff.rfl

@[simp] theorem RegistryBundle.enum_mem_facts {p : String × EnumMapping} :
    .enum p ∈ b.facts o ↔ b.enums.lookup p.1 = some p.2 := Iff.rfl

@[simp] theorem RegistryBundle.bundle_mem_facts {p : String × Bytes} :
    .bundle p ∉ b.facts o := fun h => h

end Membership

theorem mem_typeList {b : RegistryBundle} {o : HashOrder} {typeId : String}
    {entry : TypeEntry} : (typeId, entry) ∈ b.typeList o ↔ b.types.lookup typeId = some entry :=
  mem_entriesIn (o.strings_list _ _)

theorem mem_enumList {b : RegistryBundle} {o : HashOrder} {enumId : String}
    {mapping : EnumMapping} :
    (enumId, mapping) ∈ b.enumList o ↔ b.enums.lookup enumId = some mapping :=
  mem_entriesIn (o.strings_list _ _)

theorem gathered_enums (b : RegistryBundle) (o : HashOrder) :
    gathered (fun p : String × EnumMapping => {p}) (b.enumList o) = graph b.enums := by
  ext ⟨enumId, mapping⟩
  constructor
  · rintro ⟨p, hp, rfl⟩
    exact mem_enumList.mp hp
  · intro h
    exact ⟨_, mem_enumList.mpr h, rfl⟩

/-- **What a bundle says does not depend on the order in which it is read.** -/
theorem RegistryBundle.facts_eq {b : RegistryBundle} (h : b.Unambiguous) (o o' : HashOrder) :
    b.facts o = b.facts o' := by
  have hle : ∀ {o o' : HashOrder} {p : String × Option SpecFact},
      p ∈ gathered (entryFacts o) (b.typeList o) →
        p ∈ gathered (entryFacts o') (b.typeList o') := by
    rintro o o' p ⟨⟨typeId, entry⟩, hmem, hp, hf⟩
    have hentry := mem_typeList.mp hmem
    refine ⟨(typeId, entry), mem_typeList.mpr hentry, hp, fun f hpf => ?_⟩
    obtain ⟨⟨version, d⟩, hv, hfact⟩ := hf f hpf
    have hd := mem_versionsOf.mp hv
    refine ⟨(version, d), mem_versionsOf.mpr hd, ?_⟩
    rwa [versionFacts, readVersion_eq (h typeId entry hentry version d hd) o' o]
  ext f
  cases f with
  | type p => exact ⟨hle, hle⟩
  | enum p => exact Iff.rfl
  | bundle p => exact Iff.rfl

/-- **A registry is known by its facts**, but for the bundle that came last. -/
theorem Registry.facts_injective {r r' : Registry} (h : TypesWellFormed r.types)
    (h' : TypesWellFormed r'.types) (hf : r.facts = r'.facts) :
    r.bundles = r'.bundles ∧ r.types = r'.types ∧ r.enums = r'.enums := by
  have hiff : ∀ f, f ∈ r.facts ↔ f ∈ r'.facts := Set.ext_iff.mp hf
  refine ⟨graph_injective ?_, typeFacts_injective h h' ?_, graph_injective ?_⟩
  · ext p
    exact hiff (.bundle p)
  · ext p
    exact hiff (.type p)
  · ext p
    exact hiff (.enum p)

/-- The facts about types. -/
def typesIn (T : Set RegistryFact) : Set (String × Option SpecFact) := {p | .type p ∈ T}

/-- The facts about enums. -/
def enumsIn (T : Set RegistryFact) : Set (String × EnumMapping) := {p | .enum p ∈ T}

/-- No two answers to a question. -/
structure ConsistentRegistry (T : Set RegistryFact) : Prop where
  type : ∀ typeId, ConsistentSpec (about (typesIn T) typeId)
  enum : ∀ enumId m m', (enumId, m) ∈ enumsIn T → (enumId, m') ∈ enumsIn T → m = m'
  bundle : ∀ id raw raw', .bundle (id, raw) ∈ T → .bundle (id, raw') ∈ T → raw = raw'

theorem Registry.consistent (r : Registry) : ConsistentRegistry r.facts where
  type typeId := by
    change ConsistentSpec (about (typeFacts r.types) typeId)
    rw [about_typeFacts]
    exact TypeSpec.consistent _
  enum _ _ _ h h' := Option.some.inj (h.symm.trans h')
  bundle _ _ _ h h' := Option.some.inj (h.symm.trans h')

/-- Every enum that a field refers to is there. -/
def EnumsKnown (T : Set RegistryFact) : Prop :=
  ∀ typeId v fields, .type (typeId, some (.fields v fields)) ∈ T →
    ∀ tag f enumRef, fields.lookup tag = some f → f.enumRef = some enumRef →
      ∃ mapping, .enum (enumRef, mapping) ∈ T

theorem EnumsKnown.union {T T' : Set RegistryFact} (h : EnumsKnown T) (h' : EnumsKnown T') :
    EnumsKnown (T ∪ T') := by
  rintro typeId v fields (hf | hf) tag f enumRef hl he
  · obtain ⟨m, hm⟩ := h typeId v fields hf tag f enumRef hl he
    exact ⟨m, Or.inl hm⟩
  · obtain ⟨m, hm⟩ := h' typeId v fields hf tag f enumRef hl he
    exact ⟨m, Or.inr hm⟩

/-- **What the check of the enums finds out.** -/
theorem checkEnums_ok_iff {o : HashOrder} (r : Registry) :
    checkEnums o r.types r.enums = .ok () ↔ EnumsKnown r.facts := by
  have hnil : checkEnums o r.types r.enums = .ok () ↔ missingEnums o r.types r.enums = [] := by
    rw [checkEnums]
    cases missingEnums o r.types r.enums with
    | nil => simp
    | cons p l => simp
  have hmissing : missingEnums o r.types r.enums = [] ↔
      ∀ typeId spec, r.types.lookup typeId = some spec →
        ∀ v n, spec.versions.lookup v = some n →
          ∀ tag f, n.fields.lookup tag = some f →
            ∀ enumRef, f.enumRef = some enumRef → enumRef ∈ r.enums := by
    simp only [missingEnums, List.flatMap_eq_nil_iff, List.filterMap_eq_nil_iff, Prod.forall,
      TypeSpec.iter, mem_entriesIn (o.strings_list _ _), mem_entriesIn (o.numbers_list _ _),
      mem_entriesIn (lists_sorted (· ≤ ·) _)]
    refine forall₄_congr fun typeId spec _ v => ?_
    refine forall₄_congr fun n _ tag f => forall_congr' fun _ => ?_
    cases f.enumRef with
    | none => simp
    | some e => by_cases he : e ∈ r.enums <;> simp [he]
  rw [hnil, hmissing]
  constructor
  · rintro h typeId v fields ⟨spec, hspec, hfact⟩ tag f enumRef hl he
    obtain ⟨n, hn, rfl⟩ := hfact _ rfl
    exact Finmap.mem_iff.mp (h typeId spec hspec v n hn tag f hl enumRef he)
  · intro h typeId spec hspec v n hn tag f hl enumRef he
    refine Finmap.mem_iff.mpr (h typeId v n.fields ⟨spec, hspec, fun f' hf' => ?_⟩ tag f enumRef
      hl he)
    rw [← Option.some.inj hf']
    exact ⟨n, hn, rfl⟩

/-! ### Merging a bundle -/

section Merge

variable {o : HashOrder} {r r' : Registry} {b : RegistryBundle} {T : Set RegistryFact}

/-- **How a merge succeeds.** -/
theorem Registry.ingestBundle_eq_ok_iff :
    r.ingestBundle o b = (.ok (), r') ↔
      b.registryVersion ≠ 0 ∧
        run mergeEnum (b.enumList o) r.enums = (.ok (), r'.enums) ∧
        run (mergeType o) (b.typeList o) r.types = (.ok (), r'.types) ∧
        checkEnums o r'.types r'.enums = .ok () ∧
        r'.bundles = r.bundles ∧ r'.lastBundleId = r.lastBundleId := by
  have henums : entriesIn b.enums (o.strings ["enums"] b.enums.keys) = b.enumList o := rfl
  have htypes : entriesIn b.types (o.strings ["types"] b.types.keys) = b.typeList o := rfl
  obtain ⟨bundles', types', enums', last'⟩ := r'
  rw [Registry.ingestBundle, henums, htypes]
  split
  next hv => simp [hv]
  next hv =>
    dsimp only
    rcases run mergeEnum (b.enumList o) r.enums with ⟨_ | _, enums⟩
    · simp
    · dsimp only
      rcases run (mergeType o) (b.typeList o) r.types with ⟨_ | _, types⟩
      · simp
      · simp only [Prod.mk.injEq, Registry.mk.injEq, ne_eq, hv, not_false_eq_true, true_and]
        constructor
        · rintro ⟨hcheck, rfl, rfl, rfl, rfl⟩
          exact ⟨rfl, rfl, hcheck, rfl, rfl⟩
        · rintro ⟨rfl, rfl, hcheck, rfl, rfl⟩
          exact ⟨hcheck, rfl, rfl, rfl, rfl⟩

/-- A merge that is refused before it brings anything new fails. -/
theorem Registry.ingestBundle_ne_ok (h : TypesWellFormed r.types)
    (hb : b.RefusedBeforeNews o r) : r.ingestBundle o b ≠ (.ok (), r') := by
  intro hok
  obtain ⟨hversion, henums, htypes, -⟩ := Registry.ingestBundle_eq_ok_iff.mp hok
  rcases hb with hzero | hstops | ⟨-, hstops⟩
  · exact hversion hzero
  · obtain ⟨e, he⟩ := (runEnums_eq_error_iff b r.enums).mpr hstops
    rw [he] at henums
    cases henums
  · obtain ⟨e, he⟩ := (runTypes_eq_error_iff h b).mpr hstops
    rw [he] at htypes
    cases htypes

/-- What there is of the enums, below `T`. -/
theorem enums_subset (hsub : r.facts ∪ b.facts o ⊆ T) :
    graph r.enums ∪ gathered (fun p : String × EnumMapping => {p}) (b.enumList o) ⊆
      enumsIn T := by
  rw [gathered_enums]
  rintro p (hp | hp)
  · exact hsub (Or.inl hp)
  · exact hsub (Or.inr hp)

/-- What there is of the types, below `T`. -/
theorem types_subset (hsub : r.facts ∪ b.facts o ⊆ T) :
    typeFacts r.types ∪ gathered (entryFacts o) (b.typeList o) ⊆ typesIn T := by
  rintro p (hp | hp)
  · exact hsub (Or.inl hp)
  · exact hsub (Or.inr hp)

/-- **What a merge adds** that succeeds, as long as the renderers agree. -/
theorem Registry.ingestBundle_facts
    (hT : ∀ typeId, RenderersAgree (about (typesIn T) typeId))
    (h : TypesWellFormed r.types) (hsub : r.facts ∪ b.facts o ⊆ T)
    (hok : r.ingestBundle o b = (.ok (), r')) :
    TypesWellFormed r'.types ∧ r'.facts = r.facts ∪ b.facts o ∧ EnumsKnown r'.facts := by
  obtain ⟨-, henums, htypes, hcheck, hbundles, -⟩ := Registry.ingestBundle_eq_ok_iff.mp hok
  obtain ⟨-, henumFacts⟩ := run_facts (fun _ => True) graph
    (fun p : String × EnumMapping => {p}) (enumsIn T)
    (fun _ _ _ _ _ _ h => ⟨trivial, graph_enter h⟩) trivial (enums_subset hsub) henums
  obtain ⟨hwf, htypeFacts⟩ := run_facts TypesWellFormed typeFacts (entryFacts o)
    (typesIn T) (fun _ _ _ _ => mergeType_facts hT) h (types_subset hsub) htypes
  refine ⟨hwf, ?_, (checkEnums_ok_iff r').mp hcheck⟩
  rw [gathered_enums] at henumFacts
  ext f
  cases f with
  | type p => exact Set.ext_iff.mp htypeFacts p
  | enum p => exact Set.ext_iff.mp henumFacts p
  | bundle p =>
      change p ∈ graph r'.bundles ↔ p ∈ graph r.bundles ∨ False
      rw [hbundles, or_false]

/-- **When a merge succeeds.** -/
theorem Registry.exists_ingestBundle (hT : ConsistentRegistry T) (h : TypesWellFormed r.types)
    (hsub : r.facts ∪ b.facts o ⊆ T) (hversion : b.registryVersion ≠ 0) (hread : b.Readable)
    (hknown : EnumsKnown (r.facts ∪ b.facts o)) :
    ∃ r', r.ingestBundle o b = (.ok (), r') := by
  obtain ⟨enums, henums⟩ :
      ∃ enums, run mergeEnum (b.enumList o) r.enums = (.ok (), enums) := by
    refine run_ok (fun _ => True) graph (fun p : String × EnumMapping => {p}) (enumsIn T)
      (fun _ _ _ _ _ _ h => ⟨trivial, graph_enter h⟩)
      (fun p _ m _ hm => enter_ok_iff.mpr fun m' hm' => ?_) trivial (enums_subset hsub)
    exact hT.enum p.1 m' p.2 (hm (a := (p.1, m')) (Or.inl hm')) (hm (Or.inr rfl))
  obtain ⟨types, htypes⟩ := run_ok TypesWellFormed typeFacts (entryFacts o)
    (typesIn T) (fun _ _ _ _ => mergeType_facts fun typeId => (hT.type typeId).renderer)
    (fun entry hmem m hwf hm => by
      obtain ⟨typeId, entry⟩ := entry
      refine exists_mergeType (T := typesIn T) hT.type (fun version hv => ?_) hwf hm
      obtain ⟨hnum, htags⟩ := hread typeId entry (mem_typeList.mp hmem) version.1 version.2
        (mem_versionsOf.mp hv)
      exact exists_readVersion o typeId hnum htags)
    h (types_subset hsub)
  have hok : checkEnums o types enums = .ok () := by
    set r' : Registry := { r with enums, types } with hr'
    refine (checkEnums_ok_iff r').mpr ?_
    obtain ⟨-, henumFacts⟩ := run_facts (fun _ => True) graph
      (fun p : String × EnumMapping => {p}) (enumsIn T)
      (fun _ _ _ _ _ _ h => ⟨trivial, graph_enter h⟩) trivial (enums_subset hsub) henums
    obtain ⟨-, htypeFacts⟩ := run_facts TypesWellFormed typeFacts (entryFacts o)
      (typesIn T) (fun _ _ _ _ => mergeType_facts fun typeId => (hT.type typeId).renderer)
      h (types_subset hsub) htypes
    rw [gathered_enums] at henumFacts
    intro typeId v fields hf tag f enumRef hl he
    obtain ⟨m, hm⟩ := hknown typeId v fields (Set.ext_iff.mp htypeFacts _ |>.mp hf) tag f enumRef
      hl he
    exact ⟨m, Set.ext_iff.mp henumFacts (enumRef, m) |>.mpr hm⟩
  exact ⟨{ r with enums, types }, Registry.ingestBundle_eq_ok_iff.mpr
    ⟨hversion, henums, htypes, hok, rfl, rfl⟩⟩

end Merge

end Cxdb
