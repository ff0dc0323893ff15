import Cxdb.RegistryBundles

/-!
# Restarts of the Registry

The registry is rebuilt from its files, in the order in which the directory lists them. That
gives the registry again that was there before, if every bundle that was stored can be merged
by itself and contradicts no other, each has a file of its own, and no refused bundle has left
anything behind.

## Main results

* `Mirrored.open`: such a directory can be opened in any order, and holds the registry.
* `registry_restart`: what a run keeps in which every put is of this kind.
* `colliding_file_names`: two bundles that were accepted, of which one is there after a restart.
-/

open ByteFormat FailingLoop IterationOrder Transition

namespace Cxdb

variable {readBundle : BundleReader}

/-! ### File names -/

/-- The file of a bundle is found again. -/
theorem extension_bundleFilename (bundleId : String) :
    extension (bundleFilename bundleId) = some "json" := by
  have hname : (bundleFilename bundleId).toList.reverse = "nosj".toList ++ '.' ::
      ((bundleId.toList.map fun c => if c = '/' ∨ c = ':' ∨ c = '#' then '_' else c).reverse ++
        "_eldnub".toList) := by
    simp [bundleFilename, String.toList_append]
  have hspan : ∀ rest : List Char, ("nosj".toList ++ '.' :: rest).span (· ≠ '.') =
      ("nosj".toList, '.' :: rest) := fun rest => by
    simp [List.span_eq_takeWhile_dropWhile]
  rw [extension, hname, hspan]
  cases (bundleId.toList.map fun c => if c = '/' ∨ c = ':' ∨ c = '#' then '_' else c).reverse with
  | nil => rfl
  | cons c cs => rfl

/-! ### Renderers -/

/-- The renderers do not depend on the order of the types. -/
theorem lookup_getAllRenderers (o : HashOrder) (r : Registry) (typeId : String) (R : RendererSpec) :
    (r.getAllRenderers o).lookup typeId = some R ↔
      ∃ spec, r.types.lookup typeId = some spec ∧
        spec.latest.bind TypeVersionSpec.renderer = some R := by
  set types := entriesIn r.types (o.strings ["renderers"] r.types.keys) with htypes
  have hmem : ∀ R, (typeId, R) ∈ types.filterMap latestRenderer ↔
      ∃ spec, r.types.lookup typeId = some spec ∧
        spec.latest.bind TypeVersionSpec.renderer = some R := by
    intro R
    simp only [List.mem_filterMap, latestRenderer, Option.map_eq_some_iff, Prod.mk.injEq,
      Prod.exists, htypes, mem_entriesIn (o.strings_list _ _)]
    constructor
    · rintro ⟨t, spec, hspec, R', hR', rfl, rfl⟩
      exact ⟨spec, hspec, hR'⟩
    · rintro ⟨spec, hspec, hR⟩
      exact ⟨typeId, spec, hspec, R, hR, rfl, rfl⟩
  have hnodup : ((types.filterMap latestRenderer).map Prod.fst).Nodup := by
    have hsub : ((types.filterMap latestRenderer).map Prod.fst).Sublist (types.map Prod.fst) := by
      induction types with
      | nil => simp
      | cons p l ih =>
          rw [List.filterMap_cons, latestRenderer]
          cases p.2.latest.bind TypeVersionSpec.renderer with
          | none => exact ih.cons _
          | some R => exact ih.cons_cons _
    exact hsub.nodup (entriesIn_nodup (o.strings_list _ _))
  rw [← hmem, Registry.getAllRenderers, ← htypes]
  constructor
  · intro h
    rcases LastWrite.exists_of_lookup_insertAll h with ⟨⟨t, R'⟩, hin, rfl, rfl⟩ | h
    · exact hin
    · simp at h
  · exact fun h => LastWrite.lookup_insertAll_of_mem hnodup h

theorem getAllRenderers_eq {r r' : Registry} (h : r.types = r'.types) (o o' : HashOrder) :
    r.getAllRenderers o = r'.getAllRenderers o' := by
  refine Finmap.ext_lookup fun typeId => Option.ext fun R => ?_
  rw [lookup_getAllRenderers, lookup_getAllRenderers, h]

/-! ### Directories that mirror their registry -/

/-- A bundle that can be merged by itself, and in whatever order it is read. -/
structure RegistryBundle.Storable (b : RegistryBundle) : Prop where
  unambiguous : b.Unambiguous
  readable : b.Readable
  version : b.registryVersion ≠ 0
  selfContained : EnumsKnown (b.facts .sorted)

/-- What a file says. -/
def fileFacts (readBundle : BundleReader) (raw : Bytes) : Set RegistryFact :=
  match readBundle raw with
  | .ok b => b.facts .sorted ∪ {.bundle (b.bundleId, raw)}
  | .error _ => ∅

theorem fileFacts_of_ok {raw : Bytes} {b : RegistryBundle} (h : readBundle raw = .ok b) :
    fileFacts readBundle raw = b.facts .sorted ∪ {.bundle (b.bundleId, raw)} := by
  rw [fileFacts, h]

/-- What the files of a directory say. -/
def dirFacts (readBundle : BundleReader) (files : BundleDir) : Set RegistryFact :=
  {f | ∃ name raw, files.lookup name = some raw ∧ f ∈ fileFacts readBundle raw}

/-- The files are those of bundles that can be stored, and say what the registry knows. -/
structure RegistryHost.Mirrored (readBundle : BundleReader) (m : RegistryHost) : Prop where
  wellFormed : TypesWellFormed m.registry.types
  file : ∀ name raw, m.files.lookup name = some raw → extension name = some "json" ∧
    ∃ b, readBundle raw = .ok b ∧ b.Storable
  facts : m.registry.facts = dirFacts readBundle m.files

theorem Registry.facts_stored (r : Registry) {bundleId : String} {raw : Bytes}
    (h : ∀ raw', r.bundles.lookup bundleId = some raw' → raw' = raw) :
    (r.stored bundleId raw).facts = r.facts ∪ {.bundle (bundleId, raw)} := by
  ext f
  cases f with
  | type p => simp [Registry.stored]
  | enum p => simp [Registry.stored]
  | bundle p =>
      obtain ⟨id, raw'⟩ := p
      simp only [Registry.bundle_mem_facts, Registry.stored, LastWrite.lookup_insert,
        Set.mem_union, Set.mem_singleton_iff, RegistryFact.bundle.injEq, Prod.mk.injEq]
      split
      next hid =>
        subst hid
        constructor
        · intro hraw
          exact Or.inr ⟨rfl, (Option.some.inj hraw).symm⟩
        · rintro (hraw | ⟨-, hraw⟩)
          · rw [h raw' hraw]
          · rw [hraw]
      next hid => simp [hid]

theorem enumsKnown_stored {r : Registry} {bundleId : String} {raw : Bytes}
    (h : EnumsKnown r.facts) : EnumsKnown (r.stored bundleId raw).facts :=
  fun typeId v fields hf => h typeId v fields hf

/-- The enums of what the files say are there. -/
theorem RegistryHost.Mirrored.enumsKnown {m : RegistryHost} (h : m.Mirrored readBundle) :
    EnumsKnown m.registry.facts := by
  rw [h.facts]
  rintro typeId v fields ⟨name, raw, hraw, hf⟩ tag f enumRef hl he
  obtain ⟨-, b, hread, hb⟩ := h.file name raw hraw
  rw [fileFacts_of_ok hread] at hf
  rcases hf with hf | hf
  · obtain ⟨mapping, hmap⟩ := hb.selfContained typeId v fields hf tag f enumRef hl he
    exact ⟨mapping, name, raw, hraw, by
      rw [fileFacts_of_ok hread]
      exact Or.inl hmap⟩
  · cases hf

/-- A pass of `open` over a file that mirrors part of what there is to know. -/
theorem Registry.loadFile_mirrored {T : Set RegistryFact} (hT : ConsistentRegistry T)
    (orders : String → HashOrder) {name : String} {raw : Bytes} {b : RegistryBundle}
    (hname : extension name = some "json") (hread : readBundle raw = .ok b) (hb : b.Storable)
    {r : Registry} (hwf : TypesWellFormed r.types) (hknown : EnumsKnown r.facts)
    (hsub : r.facts ∪ fileFacts readBundle raw ⊆ T) :
    ∃ r', r.loadFile readBundle orders (name, raw) = (.ok (), r') ∧
      TypesWellFormed r'.types ∧ EnumsKnown r'.facts ∧
        r'.facts = r.facts ∪ fileFacts readBundle raw := by
  rw [fileFacts_of_ok hread] at hsub ⊢
  have hfacts := RegistryBundle.facts_eq hb.unambiguous (orders name) .sorted
  have hmerge : r.facts ∪ b.facts (orders name) ⊆ T := by
    rw [hfacts]
    rintro f (hf | hf)
    · exact hsub (Or.inl hf)
    · exact hsub (Or.inr (Or.inl hf))
  obtain ⟨r₁, hr₁⟩ := Registry.exists_ingestBundle hT hwf hmerge hb.version hb.readable
    (by rw [hfacts]; exact hknown.union hb.selfContained)
  obtain ⟨hwf₁, hf₁, hknown₁⟩ := Registry.ingestBundle_facts
    (fun typeId => (hT.type typeId).renderer) hwf hmerge hr₁
  have hbundles : r₁.bundles = r.bundles := (Registry.ingestBundle_eq_ok_iff.mp hr₁).2.2.2.2.1
  refine ⟨r₁.stored b.bundleId raw, ?_, hwf₁, enumsKnown_stored hknown₁, ?_⟩
  · simp only [Registry.loadFile, hname, ne_eq, not_true_eq_false, if_false, hread, hr₁]
    rfl
  · rw [Registry.facts_stored, hf₁, hfacts, Set.union_assoc]
    intro raw' hraw'
    rw [hbundles] at hraw'
    exact hT.bundle b.bundleId raw' raw (hsub (Or.inl hraw')) (hsub (Or.inr (Or.inr rfl)))

/-- **Such a directory can be opened in any order**, and holds the registry. -/
theorem RegistryHost.Mirrored.open {m : RegistryHost} (h : m.Mirrored readBundle)
    (orders : String → HashOrder) {names : List String} (hnames : Lists m.files.keys names) :
    ∃ r, Registry.open readBundle orders (entriesIn m.files names) = .ok r ∧
      TypesWellFormed r.types ∧ r.facts = m.registry.facts := by
  have hT := m.registry.consistent
  have hgathered : gathered (fun entry : String × Bytes => fileFacts readBundle entry.2)
      (entriesIn m.files names) = m.registry.facts := by
    rw [h.facts]
    ext f
    constructor
    · rintro ⟨⟨name, raw⟩, hmem, hf⟩
      exact ⟨name, raw, (mem_entriesIn hnames).mp hmem, hf⟩
    · rintro ⟨name, raw, hraw, hf⟩
      exact ⟨(name, raw), (mem_entriesIn hnames).mpr hraw, hf⟩
  have hempty : Registry.empty.facts = ∅ := by
    ext f
    cases f <;> simp [Registry.empty, typeFacts]
  have hsub : Registry.empty.facts ∪
      gathered (fun entry : String × Bytes => fileFacts readBundle entry.2)
        (entriesIn m.files names) ⊆ m.registry.facts := by
    rw [hempty, hgathered, Set.empty_union]
  have hpass : ∀ entry ∈ entriesIn m.files names, ∀ r : Registry,
      TypesWellFormed r.types ∧ EnumsKnown r.facts →
      r.facts ∪ fileFacts readBundle entry.2 ⊆ m.registry.facts →
      ∃ r', r.loadFile readBundle orders entry = (.ok (), r') ∧
        (TypesWellFormed r'.types ∧ EnumsKnown r'.facts) ∧
          r'.facts = r.facts ∪ fileFacts readBundle entry.2 := by
    rintro ⟨name, raw⟩ hmem r ⟨hwf, hknown⟩ hr
    obtain ⟨hname, b, hread, hb⟩ := h.file name raw ((mem_entriesIn hnames).mp hmem)
    obtain ⟨r', hr', hwf', hknown', hf'⟩ :=
      Registry.loadFile_mirrored hT orders hname hread hb hwf hknown hr
    exact ⟨r', hr', ⟨hwf', hknown'⟩, hf'⟩
  have hfacts : ∀ entry ∈ entriesIn m.files names, ∀ r r' : Registry,
      TypesWellFormed r.types ∧ EnumsKnown r.facts →
      r.facts ∪ fileFacts readBundle entry.2 ⊆ m.registry.facts →
      r.loadFile readBundle orders entry = (.ok (), r') →
      (TypesWellFormed r'.types ∧ EnumsKnown r'.facts) ∧
        r'.facts = r.facts ∪ fileFacts readBundle entry.2 := by
    intro entry hmem r r' hI hr hok
    obtain ⟨r'', hr'', hrest⟩ := hpass entry hmem r hI hr
    rw [hr''] at hok
    exact (Prod.mk.inj hok).2 ▸ hrest
  have hstart : TypesWellFormed Registry.empty.types ∧ EnumsKnown Registry.empty.facts := by
    refine ⟨TypesWellFormed.empty, fun typeId v fields hf => ?_⟩
    rw [hempty] at hf
    cases hf
  obtain ⟨r, hr⟩ := run_ok (fun r : Registry => TypesWellFormed r.types ∧ EnumsKnown r.facts)
    Registry.facts (fun entry : String × Bytes => fileFacts readBundle entry.2)
    m.registry.facts hfacts
    (fun entry hmem r hI hr => (hpass entry hmem r hI hr).imp fun _ h => h.1) hstart hsub
  obtain ⟨⟨hwf, -⟩, hrf⟩ := run_facts
    (fun r : Registry => TypesWellFormed r.types ∧ EnumsKnown r.facts)
    Registry.facts (fun entry : String × Bytes => fileFacts readBundle entry.2)
    m.registry.facts hfacts hstart hsub hr
  exact ⟨r, by rw [Registry.open, hr], hwf, by rw [hrf, hempty, hgathered, Set.empty_union]⟩

/-! ### Runs -/

/-- A put that comes to the merge is refused before it brings anything new; or it brings
nothing, and its file cannot be opened; or its bundle contradicts nothing that the registry
knows, can be merged by itself, and is written to a file of its own. -/
def RegistryHost.PutsCleanly (readBundle : BundleReader) (m : RegistryHost) :
    RegistryAct → Prop
  | .putBundle o bundleId raw fault => ∀ b, m.Merges readBundle bundleId raw b →
      b.RefusedBeforeNews o m.registry ∨
        (b.BringsNothing o m.registry ∧ fault = some .unopened) ∨
          (b.Storable ∧ ConsistentRegistry (m.registry.facts ∪ b.facts .sorted) ∧
            fault = none ∧ bundleFilename bundleId ∉ m.files)
  | .reopen _ _ => True

/-- A merge that brings nothing leaves the directory's mirror alone. -/
theorem RegistryHost.Mirrored.of_registry {m : RegistryHost} (h : m.Mirrored readBundle)
    {r : Registry} (hr : r = m.registry) :
    RegistryHost.Mirrored readBundle { m with registry := r } := by
  subst hr
  exact h

/-- **A bundle that is stored** is in its file what it is in the registry. -/
theorem RegistryHost.Mirrored.stored {m : RegistryHost} (h : m.Mirrored readBundle)
    {o : HashOrder} {bundleId : String} {raw : Bytes} {b : RegistryBundle} {r : Registry}
    (hm : m.Merges readBundle bundleId raw b) (hb : b.Storable)
    (hcons : ConsistentRegistry (m.registry.facts ∪ b.facts .sorted))
    (hfile : bundleFilename bundleId ∉ m.files)
    (hr : m.registry.ingestBundle o b = (.ok (), r)) :
    RegistryHost.Mirrored readBundle
      { registry := r.stored bundleId raw
        files := m.files.insert (bundleFilename bundleId) raw } := by
  have hfacts := RegistryBundle.facts_eq hb.unambiguous o .sorted
  obtain ⟨hwf, hrf, -⟩ := Registry.ingestBundle_facts
    (fun typeId => (hcons.type typeId).renderer) h.wellFormed
    (by rw [hfacts]) hr
  have hfresh : r.bundles.lookup bundleId = none := by
    rw [(Registry.ingestBundle_eq_ok_iff.mp hr).2.2.2.2.1]
    exact hm.fresh
  refine ⟨hwf, fun name raw' hraw' => ?_, ?_⟩
  · rw [LastWrite.lookup_insert] at hraw'
    split at hraw'
    next hname =>
      obtain rfl := Option.some.inj hraw'
      exact ⟨hname ▸ extension_bundleFilename bundleId, b, hm.read, hb⟩
    · exact h.file name raw' hraw'
  · rw [Registry.facts_stored r (by simp [hfresh]), hrf, hfacts, h.facts, Set.union_assoc]
    have hnew := fileFacts_of_ok hm.read
    rw [hm.named] at hnew
    rw [← hnew]
    ext f
    simp only [dirFacts, LastWrite.lookup_insert, Set.mem_union, Set.mem_ofPred_eq]
    constructor
    · rintro (⟨name, raw', hraw', hf⟩ | hf)
      · refine ⟨name, raw', ?_, hf⟩
        rw [if_neg, hraw']
        rintro rfl
        exact hfile (Finmap.mem_of_lookup_eq_some hraw')
      · exact ⟨bundleFilename bundleId, raw, if_pos rfl, hf⟩
    · rintro ⟨name, raw', hraw', hf⟩
      split at hraw'
      · exact Or.inr (Option.some.inj hraw' ▸ hf)
      · exact Or.inl ⟨name, raw', hraw', hf⟩

/-- **A step keeps the mirror.** -/
theorem RegistryHost.Mirrored.step {m m' : RegistryHost} {a : RegistryAct}
    (h : m.Mirrored readBundle) (hclean : m.PutsCleanly readBundle a)
    (hs : m.act readBundle a = some m') : m'.Mirrored readBundle := by
  cases a with
  | putBundle o bundleId raw fault =>
      obtain rfl := Option.some.inj hs
      rcases m.put_cases readBundle o bundleId raw fault with
        ⟨hsame, -, -⟩ | ⟨b, hm, ⟨e', r, hi, hput⟩ | ⟨r, hi, hwrite⟩⟩
      · rwa [hsame]
      · -- The merge fails, so that the bundle was not one that could be stored.
        rw [hput]
        have hr : r = (m.registry.ingestBundle o b).2 := by rw [hi]
        rcases hclean b hm with hrefused | ⟨hnothing, -⟩ | ⟨hb, hcons, -, -⟩
        · exact h.of_registry (hr.trans
            ((Registry.ingestBundle_eq_self_iff h.wellFormed b).mpr (Or.inl hrefused)))
        · exact h.of_registry (hr.trans
            ((Registry.ingestBundle_eq_self_iff h.wellFormed b).mpr (Or.inr hnothing)))
        · have hfacts := RegistryBundle.facts_eq hb.unambiguous o .sorted
          obtain ⟨r', hr'⟩ := Registry.exists_ingestBundle hcons h.wellFormed (by rw [hfacts])
            hb.version hb.readable (by rw [hfacts]; exact h.enumsKnown.union hb.selfContained)
          rw [hi] at hr'
          cases hr'
      · rcases hclean b hm with hrefused | ⟨hnothing, hfault⟩ | ⟨hb, hcons, hfault, hfile⟩
        · exact absurd hi (Registry.ingestBundle_ne_ok h.wellFormed hrefused)
        · have hr : r = m.registry := by
            have heq := (Registry.ingestBundle_eq_self_iff h.wellFormed b).mpr (Or.inr hnothing)
            rwa [hi] at heq
          rcases hwrite with ⟨e', files, hw, hput⟩ | ⟨hnone, -⟩
          · rw [hfault] at hw
            obtain rfl := (Prod.mk.inj hw).2
            rw [hput]
            exact h.of_registry hr
          · rw [hfault] at hnone
            cases hnone
        · rcases hwrite with ⟨e', files, hw, -⟩ | ⟨-, hput⟩
          · rw [hfault] at hw
            cases hw
          · rw [hput]
            exact h.stored hm hb hcons hfile hi
  | reopen orders names =>
      rw [RegistryHost.act] at hs
      split at hs
      next hnames =>
        obtain ⟨r, hr, hwf, hfacts⟩ := h.open orders hnames
        rw [hr] at hs
        obtain rfl := Option.some.inj hs
        exact ⟨hwf, h.file, hfacts.trans h.facts⟩
      · cases hs

theorem RegistryHost.Mirrored.start : RegistryHost.start.Mirrored readBundle where
  wellFormed := TypesWellFormed.empty
  file := by simp [RegistryHost.start]
  facts := by
    ext f
    cases f <;> simp [RegistryHost.start, Registry.empty, typeFacts, dirFacts]

/-- **A restart** gives the registry again, in every order in which the files can come, after
every run whose puts are clean. -/
theorem registry_restart (readBundle : BundleReader) (es : List RegistryAct) (m : RegistryHost)
    (h : Run (Guarded (RegistryHost.PutsCleanly readBundle)
      (Steps (RegistryHost.act readBundle))) RegistryHost.start es m)
    (orders : String → HashOrder) (names : List String) (hnames : Lists m.files.keys names) :
    ∃ r, Registry.open readBundle orders (entriesIn m.files names) = .ok r ∧
      r.bundles = m.registry.bundles ∧ r.types = m.registry.types ∧
      r.enums = m.registry.enums ∧
      ∀ o o', r.getAllRenderers o = m.registry.getAllRenderers o' := by
  have hm : m.Mirrored readBundle :=
    h.invariant (I := fun _ m => m.Mirrored readBundle) RegistryHost.Mirrored.start
      fun _ _ _ _ hI hs => hI.step hs.1 hs.2
  obtain ⟨r, hr, hwf, hfacts⟩ := hm.open orders hnames
  obtain ⟨hbundles, htypes, henums⟩ := Registry.facts_injective hwf hm.wellFormed hfacts
  exact ⟨r, hr, hbundles, htypes, henums, getAllRenderers_eq htypes⟩

/-! ### A run that is kept, and one that is not -/

theorem plainBundle_facts (bundleId : String) (o : HashOrder) :
    (plainBundle bundleId).facts o = ∅ := by
  have hnil : (plainBundle bundleId).typeList o = [] := by
    refine List.eq_nil_iff_forall_not_mem.mpr fun ⟨typeId, entry⟩ hp => ?_
    simpa [plainBundle] using mem_typeList.mp hp
  ext f
  cases f with
  | type p => simp [hnil]
  | enum p => simp [plainBundle]
  | bundle p => simp

theorem plainBundle_storable (bundleId : String) : (plainBundle bundleId).Storable where
  unambiguous := by simp [RegistryBundle.Unambiguous, plainBundle]
  readable := by simp [RegistryBundle.Readable, plainBundle]
  version := by simp [plainBundle]
  selfContained := by
    rw [plainBundle_facts]
    rintro typeId v fields ⟨⟩

/-- Two bundles whose ids differ in a character that file names do not have. -/
def collidingReader : BundleReader :=
  tableReader [(plainText "a/b", plainBundle "a/b"), (plainText "a:b", plainBundle "a:b")]

/-- The registry after a bundle has been put. -/
def RegistryHost.afterFirst : RegistryHost :=
  (RegistryHost.start.put collidingReader .sorted "a/b" (plainText "a/b") none).2

/-- The registry after both have been put. -/
def RegistryHost.afterBoth : RegistryHost :=
  (RegistryHost.afterFirst.put collidingReader .sorted "a:b" (plainText "a:b") none).2

/-- The restart after one bundle. -/
theorem registry_restart_afterFirst :
    ∃ r, Registry.open collidingReader (fun _ => .sorted)
        (entriesIn RegistryHost.afterFirst.files ["bundle_a_b.json"]) = .ok r ∧
      r.bundles = RegistryHost.afterFirst.registry.bundles ∧
      r.types = RegistryHost.afterFirst.registry.types ∧
      r.enums = RegistryHost.afterFirst.registry.enums ∧
      ∀ o o', r.getAllRenderers o = RegistryHost.afterFirst.registry.getAllRenderers o' := by
  refine registry_restart collidingReader
    [.putBundle .sorted "a/b" (plainText "a/b") none] RegistryHost.afterFirst
    (Run.single ⟨fun b hm => Or.inr (Or.inr ?_), rfl⟩) (fun _ => .sorted) ["bundle_a_b.json"]
    (by decide +kernel)
  have hread : collidingReader (plainText "a/b") = .ok (plainBundle "a/b") := by
    rw [collidingReader, tableReader]
    simp
  obtain rfl := Except.ok.inj (hread.symm.trans hm.read)
  refine ⟨plainBundle_storable "a/b", ?_, rfl, by decide⟩
  rw [plainBundle_facts, Set.union_empty]
  exact Registry.consistent _

/-- **Two bundles in one file**: both are accepted, and one of them is gone after a restart. -/
theorem colliding_file_names :
    Run (Steps (RegistryHost.act collidingReader)) RegistryHost.start
        [.putBundle .sorted "a/b" (plainText "a/b") none,
          .putBundle .sorted "a:b" (plainText "a:b") none] RegistryHost.afterBoth ∧
      Lists RegistryHost.afterBoth.files.keys ["bundle_a_b.json"] ∧
      RegistryHost.afterBoth.registry.bundles.lookup "a/b" = some (plainText "a/b") ∧
      ((Registry.open collidingReader (fun _ => .sorted)
          (entriesIn RegistryHost.afterBoth.files ["bundle_a_b.json"])).toOption.map
        fun r => r.bundles.lookup "a/b") = some none := by
  refine ⟨(Run.single rfl).append (Run.single rfl), ?_, ?_, ?_⟩ <;> decide +kernel

end Cxdb
