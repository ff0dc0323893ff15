import Cxdb.Registry

/-!
# What a Registry Knows

A registry as the set of facts that its bundles have told it: the mapping of an enum, that a
type exists, the fields and the renderer of a version, and what a tag of the type stands for.
A merge that succeeds adds the facts of its bundle, in whatever order it meets them; one that
fails may add some, and takes none away.

## Main results

* `TypeSpec.facts_injective`: a type is known by its facts.
* `mergeVersion_facts`, `mergeType_facts`: what a merge adds that succeeds.
* `exists_mergeVersion`, `exists_mergeType`: a merge succeeds when what it would add is
  consistent with what is there.
* `mergeVersion_grows`, `mergeType_grows`: a merge takes nothing away.
-/

open ByteFormat FailingLoop IterationOrder

namespace Cxdb

/-! ### Facts about a type -/

/-- What a type says about its versions and its tags. -/
inductive SpecFact where
  | fields (version : UInt32) (fields : HashMap UInt64 FieldSpec)
  | renderer (version : UInt32) (renderer : RendererSpec)
  | tag (tag : UInt64) (signature : FieldSignature)

/-- What a version says. -/
def TypeVersionSpec.facts (n : TypeVersionSpec) : Set SpecFact := fun
  | .fields v fields => v = n.version ∧ fields = n.fields
  | .renderer v renderer => v = n.version ∧ n.renderer = some renderer
  | .tag tag signature => ∃ f, n.fields.lookup tag = some f ∧ f.signature = signature

/-- What a type says. -/
def TypeSpec.facts (spec : TypeSpec) : Set SpecFact := fun
  | .fields v fields => ∃ n, spec.versions.lookup v = some n ∧ n.fields = fields
  | .renderer v renderer => ∃ n, spec.versions.lookup v = some n ∧ n.renderer = some renderer
  | .tag tag signature => spec.tagSchema.lookup tag = some signature

section Membership

variable {n : TypeVersionSpec} {spec : TypeSpec} {v : UInt32} {fields : HashMap UInt64 FieldSpec}
  {renderer : RendererSpec} {tag : UInt64} {signature : FieldSignature}

@[simp] theorem TypeVersionSpec.fields_mem_facts :
    .fields v fields ∈ n.facts ↔ v = n.version ∧ fields = n.fields := Iff.rfl

@[simp] theorem TypeVersionSpec.renderer_mem_facts :
    .renderer v renderer ∈ n.facts ↔ v = n.version ∧ n.renderer = some renderer := Iff.rfl

@[simp] theorem TypeVersionSpec.tag_mem_facts :
    .tag tag signature ∈ n.facts ↔ ∃ f, n.fields.lookup tag = some f ∧ f.signature = signature :=
  Iff.rfl

@[simp] theorem TypeSpec.fields_mem_facts :
    .fields v fields ∈ spec.facts ↔ ∃ n, spec.versions.lookup v = some n ∧ n.fields = fields :=
  Iff.rfl

@[simp] theorem TypeSpec.renderer_mem_facts :
    .renderer v renderer ∈ spec.facts ↔
      ∃ n, spec.versions.lookup v = some n ∧ n.renderer = some renderer := Iff.rfl

@[simp] theorem TypeSpec.tag_mem_facts :
    .tag tag signature ∈ spec.facts ↔ spec.tagSchema.lookup tag = some signature := Iff.rfl

end Membership

/-- Every version stands under its number, and its fields are in the tag schema. -/
structure TypeSpec.WellFormed (spec : TypeSpec) : Prop where
  numbered : ∀ v n, spec.versions.lookup v = some n → n.version = v
  signed : ∀ v n tag f, spec.versions.lookup v = some n → n.fields.lookup tag = some f →
    spec.tagSchema.lookup tag = some f.signature

theorem TypeSpec.WellFormed.empty : TypeSpec.empty.WellFormed where
  numbered := by simp [TypeSpec.empty]
  signed := by simp [TypeSpec.empty]

@[simp] theorem TypeSpec.facts_empty : TypeSpec.empty.facts = ∅ := by
  ext f
  cases f <;> simp [TypeSpec.empty]

/-- A version that a type has says nothing new. -/
theorem TypeSpec.WellFormed.facts_subset {spec : TypeSpec} (h : spec.WellFormed) {v : UInt32}
    {n : TypeVersionSpec} (hn : spec.versions.lookup v = some n) : n.facts ⊆ spec.facts := by
  have hv := h.numbered v n hn
  intro f hf
  cases f with
  | fields v' fields =>
      obtain ⟨rfl, rfl⟩ := hf
      exact ⟨n, by rwa [hv], rfl⟩
  | renderer v' renderer =>
      obtain ⟨rfl, hr⟩ := hf
      exact ⟨n, by rwa [hv], hr⟩
  | tag tag signature =>
      obtain ⟨f, hf, rfl⟩ := hf
      exact h.signed v n tag f hn hf

/-- **A type is known by its facts.** -/
theorem TypeSpec.facts_injective {spec spec' : TypeSpec} (h : spec.WellFormed)
    (h' : spec'.WellFormed) (hf : spec.facts = spec'.facts) : spec = spec' := by
  have hle : ∀ {s s' : TypeSpec}, s.WellFormed → s'.WellFormed → s.facts = s'.facts →
      ∀ v n, s.versions.lookup v = some n → s'.versions.lookup v = some n := by
    intro s s' hs hs' hss v n hn
    obtain ⟨n', hn', hfields⟩ : SpecFact.fields v n.fields ∈ s'.facts := hss ▸ ⟨n, hn, rfl⟩
    have hrenderer : ∀ R, n.renderer = some R ↔ n'.renderer = some R := by
      intro R
      have hR := Set.ext_iff.mp hss (.renderer v R)
      simpa [hn, hn'] using hR
    rw [hn', Option.some.injEq]
    obtain ⟨version, fields, renderer⟩ := n
    obtain ⟨version', fields', renderer'⟩ := n'
    obtain rfl := hs.numbered v _ hn
    obtain rfl := hs'.numbered _ _ hn'
    simp only at hfields hrenderer
    rw [hfields, Option.ext fun R => (hrenderer R).symm]
  obtain ⟨versions, tagSchema⟩ := spec
  obtain ⟨versions', tagSchema'⟩ := spec'
  have hversions : versions = versions' := by
    refine Finmap.ext_lookup fun v => Option.ext fun n => ?_
    exact ⟨hle h h' hf v n, hle h' h hf.symm v n⟩
  have htags : tagSchema = tagSchema' := by
    refine Finmap.ext_lookup fun tag => Option.ext fun signature => ?_
    exact Set.ext_iff.mp hf (.tag tag signature)
  rw [hversions, htags]

/-- No two renderers for a version. -/
def RenderersAgree (T : Set SpecFact) : Prop :=
  ∀ v R R', .renderer v R ∈ T → .renderer v R' ∈ T → R = R'

/-- No two answers to a question. -/
structure ConsistentSpec (T : Set SpecFact) : Prop where
  fields : ∀ v F F', .fields v F ∈ T → .fields v F' ∈ T → F = F'
  renderer : RenderersAgree T
  tag : ∀ tag g g', .tag tag g ∈ T → .tag tag g' ∈ T → g = g'

/-- A type answers no question twice. -/
theorem TypeSpec.consistent (spec : TypeSpec) : ConsistentSpec spec.facts where
  fields := by
    rintro v F F' ⟨n, hn, rfl⟩ ⟨n', hn', rfl⟩
    rw [Option.some.inj (hn.symm.trans hn')]
  renderer := by
    rintro v R R' ⟨n, hn, hR⟩ ⟨n', hn', hR'⟩
    rw [Option.some.inj (hn.symm.trans hn')] at hR
    exact Option.some.inj (hR.symm.trans hR')
  tag _ _ _ h h' := Option.some.inj (h.symm.trans h')

theorem RenderersAgree.mono {T T' : Set SpecFact} (h : RenderersAgree T') (hsub : T ⊆ T') :
    RenderersAgree T :=
  fun v R R' hR hR' => h v R R' (hsub hR) (hsub hR')

/-! ### Merging a version -/

variable {o : HashOrder} {typeId : String}

/-- What a merge makes of a version before it looks for it in the registry. -/
def readVersion (o : HashOrder) (typeId : String) (entry : String × TypeVersion) :
    Except StoreError TypeVersionSpec :=
  match parseVersion entry.1 with
  | .error e => .error e
  | .ok version => normalizeVersion o ["types", typeId, entry.1] version entry.2

/-- What a version in a bundle says; nothing if it cannot be read. -/
def versionFacts (o : HashOrder) (typeId : String) (entry : String × TypeVersion) :
    Set SpecFact :=
  match readVersion o typeId entry with
  | .error _ => ∅
  | .ok n => n.facts

/-- The tags of a new version, in the order in which they are merged. -/
def tagsOf (o : HashOrder) (typeId : String) (entry : String × TypeVersion)
    (n : TypeVersionSpec) : List (UInt64 × FieldSpec) :=
  entriesIn n.fields (o.numbers ["types", typeId, entry.1] n.fields.keys)

theorem mem_tagsOf {entry : String × TypeVersion} {n : TypeVersionSpec} {tag : UInt64}
    {f : FieldSpec} : (tag, f) ∈ tagsOf o typeId entry n ↔ n.fields.lookup tag = some f :=
  mem_entriesIn (o.numbers_list _ _)

/-- **What merging a version does**, case by case. -/
theorem mergeVersion_cases (o : HashOrder) (typeId : String) (entry : String × TypeVersion)
    (spec : TypeSpec) :
    (∃ e, readVersion o typeId entry = .error e ∧
      mergeVersion o typeId entry spec = (.error e, spec)) ∨
    ∃ n, readVersion o typeId entry = .ok n ∧
      ((∃ old, spec.versions.lookup n.version = some old ∧
          ((old.fields ≠ n.fields ∧ ∃ e, mergeVersion o typeId entry spec = (.error e, spec)) ∨
            (old.fields = n.fields ∧ (n.renderer = none ∨ old.renderer ≠ none) ∧
              mergeVersion o typeId entry spec = (.ok (), spec)) ∨
            (old.fields = n.fields ∧ n.renderer ≠ none ∧ old.renderer = none ∧
              mergeVersion o typeId entry spec =
                (.ok (), spec.setVersion n.version (old.withRenderer n.renderer))))) ∨
        (spec.versions.lookup n.version = none ∧
          mergeVersion o typeId entry spec =
            mergeNewVersion o typeId ["types", typeId, entry.1] n spec)) := by
  rw [readVersion, mergeVersion]
  cases hv : parseVersion entry.1 with
  | error e => exact Or.inl ⟨e, rfl, rfl⟩
  | ok version =>
      simp only
      cases hn : normalizeVersion o ["types", typeId, entry.1] version entry.2 with
      | error e => exact Or.inl ⟨e, rfl, rfl⟩
      | ok n =>
          have hversion : n.version = version := by
            rw [normalizeVersion] at hn
            split at hn
            · cases hn
            · rw [← Except.ok.inj hn]
          subst hversion
          refine Or.inr ⟨n, rfl, ?_⟩
          simp only
          cases hold : spec.versions.lookup n.version with
          | none => exact Or.inr ⟨rfl, rfl⟩
          | some old =>
              refine Or.inl ⟨old, rfl, ?_⟩
              by_cases hfields : old.fields = n.fields
              · by_cases hr : n.renderer.isSome ∧ old.renderer.isNone
                · refine Or.inr (Or.inr ⟨hfields, ?_, ?_, ?_⟩)
                  · exact Option.isSome_iff_ne_none.mp hr.1
                  · exact Option.isNone_iff_eq_none.mp hr.2
                  · exact (if_neg (not_not.mpr hfields)).trans (if_pos hr)
                · refine Or.inr (Or.inl ⟨hfields, ?_, ?_⟩)
                  · simpa [not_and_or, Option.not_isSome_iff_eq_none, -not_and] using hr
                  · exact (if_neg (not_not.mpr hfields)).trans (if_neg hr)
              · exact Or.inl ⟨hfields, _, if_pos hfields⟩

/-- What the tags of a version say. -/
def tagFacts (n : TypeVersionSpec) : Set (UInt64 × FieldSignature) :=
  {p | ∃ f, n.fields.lookup p.1 = some f ∧ f.signature = p.2}

theorem gathered_tags (o : HashOrder) (typeId : String) (entry : String × TypeVersion)
    {n : TypeVersionSpec} :
    gathered (fun p : UInt64 × FieldSpec => {(p.1, p.2.signature)}) (tagsOf o typeId entry n) =
      tagFacts n := by
  ext ⟨tag, g⟩
  constructor
  · rintro ⟨⟨tag', f⟩, hmem, hp⟩
    obtain ⟨rfl, rfl⟩ := Prod.mk.inj hp
    exact ⟨f, mem_tagsOf.mp hmem, rfl⟩
  · rintro ⟨f, hf, rfl⟩
    exact ⟨(tag, f), mem_tagsOf.mpr hf, rfl⟩

theorem mergeNewVersion_eq (o : HashOrder) (typeId : String) (entry : String × TypeVersion)
    (n : TypeVersionSpec) (spec : TypeSpec) :
    mergeNewVersion o typeId ["types", typeId, entry.1] n spec =
      match run (mergeTag typeId) (tagsOf o typeId entry n) spec.tagSchema with
      | (.error e, tagSchema) => (.error e, { spec with tagSchema })
      | (.ok (), tagSchema) =>
          (.ok (), { versions := spec.versions.insert n.version n, tagSchema }) := rfl

/-- A merge of a new version that fails has only added tags. -/
theorem mergeNewVersion_cases (o : HashOrder) (typeId : String) (entry : String × TypeVersion)
    (n : TypeVersionSpec) (spec : TypeSpec) :
    ∃ tagSchema, graph spec.tagSchema ⊆ graph tagSchema ∧
      ((∃ e, mergeNewVersion o typeId ["types", typeId, entry.1] n spec =
          (.error e, { spec with tagSchema })) ∨
        graph tagSchema = graph spec.tagSchema ∪ tagFacts n ∧
          mergeNewVersion o typeId ["types", typeId, entry.1] n spec =
            (.ok (), { versions := spec.versions.insert n.version n, tagSchema })) := by
  have hgrow : graph spec.tagSchema ⊆
      graph (run (mergeTag typeId) (tagsOf o typeId entry n) spec.tagSchema).2 :=
    facts_subset_run fun _ _ _ => graph_subset_enter
  rw [mergeNewVersion_eq]
  cases hrun : run (mergeTag typeId) (tagsOf o typeId entry n) spec.tagSchema with
  | mk x tagSchema =>
      rw [hrun] at hgrow
      refine ⟨tagSchema, hgrow, ?_⟩
      cases x with
      | error e => exact Or.inl ⟨e, rfl⟩
      | ok u =>
          refine Or.inr ⟨?_, rfl⟩
          rw [← gathered_tags o typeId entry]
          exact (run_facts (fun _ => True) graph _ Set.univ
            (fun _ _ _ _ _ _ h => ⟨trivial, graph_enter h⟩) trivial (Set.subset_univ _) hrun).2

/-! #### Types stay well formed and lose nothing -/

/-- The type after a version has got a renderer. -/
theorem TypeSpec.WellFormed.setRenderer {spec : TypeSpec} (h : spec.WellFormed) {v : UInt32}
    {old : TypeVersionSpec} (hold : spec.versions.lookup v = some old)
    (renderer : Option RendererSpec) :
    (spec.setVersion v (old.withRenderer renderer)).WellFormed where
  numbered := by
    intro v' n hn
    rw [TypeSpec.setVersion, LastWrite.lookup_insert] at hn
    split at hn
    next hv =>
      subst hv
      rw [← Option.some.inj hn]
      exact h.numbered _ old hold
    · exact h.numbered _ _ hn
  signed := by
    intro v' n tag f hn hf
    rw [TypeSpec.setVersion, LastWrite.lookup_insert] at hn
    split at hn
    next hv =>
      rw [← Option.some.inj hn] at hf
      exact h.signed _ _ _ _ hold hf
    · exact h.signed _ _ _ _ hn hf

/-- What a renderer for a version adds. -/
theorem TypeSpec.facts_setRenderer {spec : TypeSpec} {v : UInt32} {old : TypeVersionSpec}
    (hold : spec.versions.lookup v = some old) (hnone : old.renderer = none)
    (R : RendererSpec) :
    (spec.setVersion v (old.withRenderer (some R))).facts = spec.facts ∪ {.renderer v R} := by
  ext f
  cases f with
  | fields v' F =>
      simp only [TypeSpec.fields_mem_facts, TypeSpec.setVersion, LastWrite.lookup_insert,
        Set.mem_union, Set.mem_singleton_iff, reduceCtorEq, or_false]
      split
      next hv =>
        subst hv
        simp [hold, TypeVersionSpec.withRenderer]
      · rfl
  | renderer v' R' =>
      simp only [TypeSpec.renderer_mem_facts, TypeSpec.setVersion, LastWrite.lookup_insert,
        Set.mem_union, Set.mem_singleton_iff, SpecFact.renderer.injEq]
      split
      next hv =>
        subst hv
        simp [hold, hnone, TypeVersionSpec.withRenderer, eq_comm]
      next hv => simp [hv]
  | tag tag g => simp [TypeSpec.setVersion]

/-- The type after a new version. -/
theorem TypeSpec.WellFormed.addVersion {spec : TypeSpec} (h : spec.WellFormed)
    {n : TypeVersionSpec} {tagSchema : HashMap UInt64 FieldSignature}
    (htags : graph tagSchema = graph spec.tagSchema ∪ tagFacts n) :
    TypeSpec.WellFormed { versions := spec.versions.insert n.version n, tagSchema } where
  numbered := by
    intro v n' hn
    rw [LastWrite.lookup_insert] at hn
    split at hn
    next hv => rw [← Option.some.inj hn, hv]
    · exact h.numbered _ _ hn
  signed := by
    intro v n' tag f hn hf
    suffices (tag, f.signature) ∈ graph tagSchema from this
    rw [htags]
    rw [LastWrite.lookup_insert] at hn
    split at hn
    · rw [← Option.some.inj hn] at hf
      exact Or.inr ⟨f, hf, rfl⟩
    · exact Or.inl (h.signed _ _ _ _ hn hf)

/-- What a new version adds. -/
theorem TypeSpec.facts_addVersion {spec : TypeSpec} {n : TypeVersionSpec}
    (hnone : spec.versions.lookup n.version = none)
    {tagSchema : HashMap UInt64 FieldSignature}
    (htags : graph tagSchema = graph spec.tagSchema ∪ tagFacts n) :
    TypeSpec.facts { versions := spec.versions.insert n.version n, tagSchema } =
      spec.facts ∪ n.facts := by
  ext f
  cases f with
  | fields v F =>
      simp only [TypeSpec.fields_mem_facts, LastWrite.lookup_insert, Set.mem_union,
        TypeVersionSpec.fields_mem_facts]
      split
      next hv =>
        subst hv
        simp [hnone, eq_comm]
      next hv => simp [hv]
  | renderer v R =>
      simp only [TypeSpec.renderer_mem_facts, LastWrite.lookup_insert, Set.mem_union,
        TypeVersionSpec.renderer_mem_facts]
      split
      next hv =>
        subst hv
        simp [hnone]
      next hv => simp [hv]
  | tag tag g => exact Set.ext_iff.mp htags (tag, g)

/-- **A merge of a version takes nothing away.** -/
theorem mergeVersion_grows (o : HashOrder) (typeId : String) (entry : String × TypeVersion)
    {spec : TypeSpec} (h : spec.WellFormed) :
    (mergeVersion o typeId entry spec).2.WellFormed ∧
      spec.facts ⊆ (mergeVersion o typeId entry spec).2.facts := by
  have same : ∀ {x : Except StoreError Unit × TypeSpec}, x.2 = spec →
      x.2.WellFormed ∧ spec.facts ⊆ x.2.facts := by
    rintro x hx
    rw [hx]
    exact ⟨h, Set.Subset.refl _⟩
  rcases mergeVersion_cases o typeId entry spec with
    ⟨e, -, heq⟩ | ⟨n, -, ⟨old, hold, ⟨-, e, heq⟩ | ⟨-, -, heq⟩ | ⟨-, hsome, hnone, heq⟩⟩ |
      ⟨hnone, heq⟩⟩
  · exact same (congrArg Prod.snd heq)
  · exact same (congrArg Prod.snd heq)
  · exact same (congrArg Prod.snd heq)
  · obtain ⟨R, hR⟩ := Option.ne_none_iff_exists'.mp hsome
    rw [heq, hR]
    refine ⟨h.setRenderer hold _, ?_⟩
    rw [TypeSpec.facts_setRenderer hold hnone]
    exact Set.subset_union_left
  · rw [heq]
    obtain ⟨tagSchema, hsub, ⟨e, hfail⟩ | ⟨htags, hok⟩⟩ :=
      mergeNewVersion_cases o typeId entry n spec
    · rw [hfail]
      have htag : ∀ tag g, spec.tagSchema.lookup tag = some g → tagSchema.lookup tag = some g :=
        fun tag g hg => hsub (a := (tag, g)) hg
      refine ⟨⟨h.numbered, fun v n' tag f hn hf => htag _ _ (h.signed v n' tag f hn hf)⟩, ?_⟩
      · intro f hf
        cases f with
        | fields v F => exact hf
        | renderer v R => exact hf
        | tag tag g => exact htag tag g hf
    · rw [hok]
      refine ⟨h.addVersion htags, ?_⟩
      rw [TypeSpec.facts_addVersion hnone htags]
      exact Set.subset_union_left

/-- **What a merge of a version adds** that succeeds, as long as the renderers agree. -/
theorem mergeVersion_facts {T : Set SpecFact} (hT : RenderersAgree T)
    {entry : String × TypeVersion} {spec spec' : TypeSpec} (h : spec.WellFormed)
    (hsub : spec.facts ∪ versionFacts o typeId entry ⊆ T)
    (hok : mergeVersion o typeId entry spec = (.ok (), spec')) :
    spec'.WellFormed ∧ spec'.facts = spec.facts ∪ versionFacts o typeId entry := by
  have hwf : spec'.WellFormed := by
    simpa [hok] using (mergeVersion_grows o typeId entry h).1
  refine ⟨hwf, ?_⟩
  rcases mergeVersion_cases o typeId entry spec with
    ⟨e, -, heq⟩ | ⟨n, hn, ⟨old, hold, ⟨-, e, heq⟩ | ⟨hfields, hr, heq⟩ |
      ⟨hfields, hsome, hnone, heq⟩⟩ | ⟨hnone, heq⟩⟩ <;> rw [heq] at hok
  · cases hok
  · cases hok
  · -- The version is there already, with this renderer if it has one.
    obtain rfl := (Prod.mk.inj hok).2
    have hnew : versionFacts o typeId entry = n.facts := by rw [versionFacts, hn]
    rw [hnew] at hsub ⊢
    refine (Set.union_eq_self_of_subset_right fun f hf => ?_).symm
    cases f with
    | fields v F =>
        obtain ⟨rfl, rfl⟩ := hf
        exact ⟨old, hold, hfields⟩
    | renderer v R =>
        obtain ⟨R', hR'⟩ : ∃ R', old.renderer = some R' := by
          rcases hr with hr | hr
          · rw [hf.2] at hr
            cases hr
          · exact Option.ne_none_iff_exists'.mp hr
        obtain ⟨rfl, hR⟩ := hf
        have hRR : R = R' := hT _ _ _ (hsub (Or.inr ⟨rfl, hR⟩)) (hsub (Or.inl ⟨old, hold, hR'⟩))
        exact ⟨old, hold, hRR ▸ hR'⟩
    | tag tag g =>
        obtain ⟨f, hf, rfl⟩ := hf
        exact h.signed _ _ _ _ hold (hfields ▸ hf)
  · -- The version is there, without a renderer.
    obtain rfl := (Prod.mk.inj hok).2
    have hnew : versionFacts o typeId entry = n.facts := by rw [versionFacts, hn]
    obtain ⟨R, hR⟩ := Option.ne_none_iff_exists'.mp hsome
    rw [hnew, hR, TypeSpec.facts_setRenderer hold hnone]
    have hwf' := h.facts_subset hold
    ext f
    constructor
    · rintro (hf | rfl)
      · exact Or.inl hf
      · exact Or.inr ⟨rfl, hR⟩
    · rintro (hf | hf)
      · exact Or.inl hf
      · cases f with
        | fields v F =>
            obtain ⟨rfl, rfl⟩ := hf
            exact Or.inl ⟨old, hold, hfields⟩
        | renderer v R' =>
            obtain ⟨rfl, hR'⟩ := hf
            exact Or.inr (by rw [Option.some.inj (hR.symm.trans hR')]; rfl)
        | tag tag g =>
            obtain ⟨f, hf, rfl⟩ := hf
            exact Or.inl (h.signed _ _ _ _ hold (hfields ▸ hf))
  · have hnew : versionFacts o typeId entry = n.facts := by rw [versionFacts, hn]
    obtain ⟨tagSchema, -, ⟨e, hfail⟩ | ⟨htags, hadd⟩⟩ :=
      mergeNewVersion_cases o typeId entry n spec
    · rw [hfail] at hok
      cases hok
    · rw [hadd] at hok
      obtain rfl := (Prod.mk.inj hok).2
      rw [hnew, TypeSpec.facts_addVersion hnone htags]

/-- **When a merge of a version succeeds.** -/
theorem exists_mergeVersion {T : Set SpecFact} (hT : ConsistentSpec T)
    {entry : String × TypeVersion} {n : TypeVersionSpec} {spec : TypeSpec}
    (hn : readVersion o typeId entry = .ok n)
    (hsub : spec.facts ∪ versionFacts o typeId entry ⊆ T) :
    ∃ spec', mergeVersion o typeId entry spec = (.ok (), spec') := by
  have hnew : versionFacts o typeId entry = n.facts := by rw [versionFacts, hn]
  rw [hnew] at hsub
  rcases mergeVersion_cases o typeId entry spec with
    ⟨e, hn', -⟩ | ⟨n', hn', ⟨old, hold, ⟨hne, -⟩ | ⟨-, -, heq⟩ | ⟨-, -, -, heq⟩⟩ | ⟨-, heq⟩⟩
  · rw [hn] at hn'
    cases hn'
  · obtain rfl := Except.ok.inj (hn.symm.trans hn')
    exact absurd (hT.fields n.version old.fields n.fields (hsub (Or.inl ⟨old, hold, rfl⟩))
      (hsub (Or.inr ⟨rfl, rfl⟩))) hne
  · exact ⟨_, heq⟩
  · exact ⟨_, heq⟩
  · obtain rfl := Except.ok.inj (hn.symm.trans hn')
    obtain ⟨tagSchema, hrun⟩ : ∃ tagSchema,
        run (mergeTag typeId) (tagsOf o typeId entry n) spec.tagSchema = (.ok (), tagSchema) := by
      refine run_ok (fun _ => True) graph (fun p : UInt64 × FieldSpec => {(p.1, p.2.signature)})
        {p | SpecFact.tag p.1 p.2 ∈ T} (fun _ _ _ _ _ _ h => ⟨trivial, graph_enter h⟩)
        (fun a _ m _ hm => enter_ok_iff.mpr fun g hg => ?_) trivial ?_
      · exact hT.tag a.1 g a.2.signature (hm (a := (a.1, g)) (Or.inl hg)) (hm (Or.inr rfl))
      · rw [gathered_tags]
        rintro p (hp | hp)
        · exact hsub (Or.inl hp)
        · exact hsub (Or.inr hp)
    refine ⟨{ versions := spec.versions.insert n.version n, tagSchema }, ?_⟩
    rw [heq, mergeNewVersion_eq, hrun]

/-! ### Merging a type -/

/-- What the types of a registry say: that a type exists, and what it says. -/
def typeFacts (types : HashMap String TypeSpec) : Set (String × Option SpecFact) :=
  {p | ∃ spec, types.lookup p.1 = some spec ∧ ∀ f, p.2 = some f → f ∈ spec.facts}

/-- The versions of a type in a bundle, in the order in which they are merged. -/
def versionsOf (o : HashOrder) (entry : String × TypeEntry) : List (String × TypeVersion) :=
  entriesIn entry.2.versions (o.strings ["types", entry.1] entry.2.versions.keys)

theorem mem_versionsOf {entry : String × TypeEntry} {version : String} {d : TypeVersion} :
    (version, d) ∈ versionsOf o entry ↔ entry.2.versions.lookup version = some d :=
  mem_entriesIn (o.strings_list _ _)

/-- What a type in a bundle says. -/
def entryFacts (o : HashOrder) (entry : String × TypeEntry) : Set (String × Option SpecFact) :=
  {p | p.1 = entry.1 ∧
    ∀ f, p.2 = some f → f ∈ gathered (versionFacts o entry.1) (versionsOf o entry)}

/-- What is said about one type. -/
def about (T : Set (String × Option SpecFact)) (typeId : String) : Set SpecFact :=
  {f | (typeId, some f) ∈ T}

def TypesWellFormed (types : HashMap String TypeSpec) : Prop :=
  ∀ typeId spec, types.lookup typeId = some spec → spec.WellFormed

theorem TypesWellFormed.getD {types : HashMap String TypeSpec} (h : TypesWellFormed types)
    (typeId : String) : ((types.lookup typeId).getD TypeSpec.empty).WellFormed := by
  cases hl : types.lookup typeId with
  | none => exact TypeSpec.WellFormed.empty
  | some spec => exact h typeId spec hl

theorem TypesWellFormed.insert {types : HashMap String TypeSpec} (h : TypesWellFormed types)
    {spec : TypeSpec} (hspec : spec.WellFormed) : TypesWellFormed (types.insert typeId spec) := by
  intro t s hs
  rw [LastWrite.lookup_insert] at hs
  split at hs
  · exact Option.some.inj hs ▸ hspec
  · exact h t s hs

theorem about_typeFacts {types : HashMap String TypeSpec} :
    about (typeFacts types) typeId = ((types.lookup typeId).getD TypeSpec.empty).facts := by
  ext f
  cases hl : types.lookup typeId <;> simp [about, typeFacts, hl]

/-- **The types of a registry are known by their facts.** -/
theorem typeFacts_injective {types types' : HashMap String TypeSpec} (h : TypesWellFormed types)
    (h' : TypesWellFormed types') (hf : typeFacts types = typeFacts types') : types = types' := by
  have hsome : ∀ {m m' : HashMap String TypeSpec}, typeFacts m = typeFacts m' →
      ∀ t spec, m.lookup t = some spec → ∃ spec', m'.lookup t = some spec' := by
    intro m m' hmm t spec ht
    have hmem : (t, none) ∈ typeFacts m' := hmm ▸ ⟨spec, ht, by simp⟩
    obtain ⟨spec', ht', -⟩ := hmem
    exact ⟨spec', ht'⟩
  refine Finmap.ext_lookup fun t => ?_
  have habout : about (typeFacts types) t = about (typeFacts types') t := by rw [hf]
  rw [about_typeFacts, about_typeFacts] at habout
  cases ht : types.lookup t with
  | none =>
      cases ht' : types'.lookup t with
      | none => rfl
      | some spec' =>
          obtain ⟨spec, hspec⟩ := hsome hf.symm t spec' ht'
          exact absurd (ht.symm.trans hspec) (by simp)
  | some spec =>
      obtain ⟨spec', ht'⟩ := hsome hf t spec ht
      rw [ht, ht'] at habout
      rw [ht', TypeSpec.facts_injective (h t spec ht) (h' t spec' ht') habout]

/-- What the types say when one of them has been put in its place. -/
theorem mem_typeFacts_insert {types : HashMap String TypeSpec} {spec : TypeSpec}
    {p : String × Option SpecFact} :
    p ∈ typeFacts (types.insert typeId spec) ↔
      (p.1 = typeId ∧ ∀ f, p.2 = some f → f ∈ spec.facts) ∨
        (p.1 ≠ typeId ∧ p ∈ typeFacts types) := by
  simp only [typeFacts, Set.mem_ofPred_eq, LastWrite.lookup_insert]
  split
  next h => simp [h]
  next h => simp [h]

theorem mergeType_eq (o : HashOrder) (entry : String × TypeEntry)
    (types : HashMap String TypeSpec) :
    mergeType o entry types =
      ((run (mergeVersion o entry.1) (versionsOf o entry)
          ((types.lookup entry.1).getD TypeSpec.empty)).1,
        types.insert entry.1
          (run (mergeVersion o entry.1) (versionsOf o entry)
            ((types.lookup entry.1).getD TypeSpec.empty)).2) := rfl

/-- **A merge of a type takes nothing away.** -/
theorem mergeType_grows (o : HashOrder) (entry : String × TypeEntry)
    {types : HashMap String TypeSpec} (h : TypesWellFormed types) :
    TypesWellFormed (mergeType o entry types).2 ∧
      typeFacts types ⊆ typeFacts (mergeType o entry types).2 := by
  rw [mergeType_eq]
  set spec := (types.lookup entry.1).getD TypeSpec.empty with hspec
  obtain ⟨hwf, hsub⟩ : (run (mergeVersion o entry.1) (versionsOf o entry) spec).2.WellFormed ∧
      spec.facts ⊆ (run (mergeVersion o entry.1) (versionsOf o entry) spec).2.facts := by
    refine run_keeps (P := fun s : TypeSpec => s.WellFormed ∧ spec.facts ⊆ s.facts)
      (fun version _ s hs => ?_) ⟨h.getD entry.1, Set.Subset.refl _⟩
    obtain ⟨hwf', hsub'⟩ := mergeVersion_grows o entry.1 version hs.1
    exact ⟨hwf', hs.2.trans hsub'⟩
  refine ⟨h.insert hwf, fun p hp => mem_typeFacts_insert.mpr ?_⟩
  by_cases hp1 : p.1 = entry.1
  · refine Or.inl ⟨hp1, fun f hf => hsub ?_⟩
    obtain ⟨spec', hl, hfacts⟩ := hp
    rw [hspec, ← hp1, hl]
    exact hfacts f hf
  · exact Or.inr ⟨hp1, hp⟩

/-- What is there of a type and what a bundle adds, below `T`. -/
theorem about_subset {T : Set (String × Option SpecFact)} {entry : String × TypeEntry}
    {types : HashMap String TypeSpec} (hsub : typeFacts types ∪ entryFacts o entry ⊆ T) :
    ((types.lookup entry.1).getD TypeSpec.empty).facts ∪
      gathered (versionFacts o entry.1) (versionsOf o entry) ⊆ about T entry.1 := by
  rw [← about_typeFacts]
  rintro f (hf | hf)
  · exact hsub (Or.inl hf)
  · refine hsub (Or.inr ⟨rfl, fun f' hf' => ?_⟩)
    rw [← Option.some.inj hf']
    exact hf

/-- **What a merge of a type adds** that succeeds, as long as the renderers agree. -/
theorem mergeType_facts {T : Set (String × Option SpecFact)}
    (hT : ∀ typeId, RenderersAgree (about T typeId)) {entry : String × TypeEntry}
    {types types' : HashMap String TypeSpec} (h : TypesWellFormed types)
    (hsub : typeFacts types ∪ entryFacts o entry ⊆ T)
    (hok : mergeType o entry types = (.ok (), types')) :
    TypesWellFormed types' ∧ typeFacts types' = typeFacts types ∪ entryFacts o entry := by
  have hwf : TypesWellFormed types' := by simpa [hok] using (mergeType_grows o entry h).1
  refine ⟨hwf, ?_⟩
  rw [mergeType_eq] at hok
  obtain ⟨hrun, rfl⟩ := Prod.mk.inj hok
  obtain ⟨-, hfacts⟩ := run_facts TypeSpec.WellFormed TypeSpec.facts (versionFacts o entry.1)
    (about T entry.1) (fun version _ spec spec' => mergeVersion_facts (hT entry.1))
    (h.getD entry.1) (about_subset hsub)
    (Prod.ext hrun rfl :
      run (mergeVersion o entry.1) (versionsOf o entry)
        ((types.lookup entry.1).getD TypeSpec.empty) = (.ok (), _))
  ext p
  rw [mem_typeFacts_insert, hfacts]
  constructor
  · rintro (⟨hp, hf⟩ | ⟨-, hp⟩)
    · obtain ⟨t, q⟩ := p
      obtain rfl : t = entry.1 := hp
      cases q with
      | none => exact Or.inr ⟨rfl, by simp⟩
      | some f =>
          rcases hf f rfl with hf | hf
          · rw [← about_typeFacts] at hf
            exact Or.inl hf
          · refine Or.inr ⟨rfl, fun f' hf' => ?_⟩
            rw [← Option.some.inj hf']
            exact hf
    · exact Or.inl hp
  · rintro (hp | ⟨hp, hf⟩)
    · by_cases hp1 : p.1 = entry.1
      · refine Or.inl ⟨hp1, fun f hf => Or.inl ?_⟩
        obtain ⟨spec, hl, hspec⟩ := hp
        rw [← hp1, hl]
        exact hspec f hf
      · exact Or.inr ⟨hp1, hp⟩
    · exact Or.inl ⟨hp, fun f hf' => Or.inr (hf f hf')⟩

/-- **When a merge of a type succeeds.** -/
theorem exists_mergeType {T : Set (String × Option SpecFact)}
    (hT : ∀ typeId, ConsistentSpec (about T typeId)) {entry : String × TypeEntry}
    {types : HashMap String TypeSpec}
    (hread : ∀ version ∈ versionsOf o entry, ∃ n, readVersion o entry.1 version = .ok n)
    (h : TypesWellFormed types) (hsub : typeFacts types ∪ entryFacts o entry ⊆ T) :
    ∃ types', mergeType o entry types = (.ok (), types') := by
  obtain ⟨spec', hrun⟩ := run_ok TypeSpec.WellFormed TypeSpec.facts (versionFacts o entry.1)
    (about T entry.1)
    (fun version _ spec spec' => mergeVersion_facts (hT entry.1).renderer)
    (fun version hmem spec _ hs =>
      (hread version hmem).elim fun n hn => exists_mergeVersion (hT entry.1) hn hs)
    (h.getD entry.1) (about_subset hsub)
  exact ⟨types.insert entry.1 spec', by rw [mergeType_eq, hrun]⟩

end Cxdb
