import Cxdb.PayloadTrees
import Cxdb.ProjectionFacts

/-!
# Payloads There and Back

A payload that is encoded and then projected with its own type has its fields again, in every
object that it reaches. The encoder and the projector decide separately which values they
translate between names and tags, and they do not always agree: a map with a reference is
stored as it is, and then read as tags.

## Main results

* `nested_round_trip`: what conforms and is kept is returned, field by field.
* `map_with_ref_dropped`: a map with a reference comes back empty.
-/

open ByteFormat IterationOrder ExceptLoops

namespace Cxdb

open Projection

variable {crates : PayloadCrates} {options : RenderOptions} {registry : Registry}
  {order : HashOrder}

/-! ### What is returned -/

/-- How the value of a field is shown. The fields of an object are shown in it, and what is
said of them is said of the object. -/
inductive FieldShown (crates : PayloadCrates) (registry : Registry) (options : RenderOptions)
    (field : FieldSpec) : JsonValue → JsonValue → Prop
  | null : FieldShown crates registry options field .null .null
  | ref {obj data : JsonFields} (htarget : field.target.isSome = true) :
      FieldShown crates registry options field (.object obj) (.object data)
  | refs {items outs : List JsonValue} (htarget : field.itemTarget.isSome = true)
      (hlength : outs.length = items.length) :
      FieldShown crates registry options field (.array items) (.array outs)
  | scalars {itemType items outs} (htype : field.itemType = some itemType)
      (hitems : List.Forall₂ (fun item out => ∃ x, readScalar crates itemType item = some x ∧
        showScalar crates options itemType x = some out) items outs) :
      FieldShown crates registry options field (.array items) (.array outs)
  | label {enumRef enumMap v n label} (href : field.enumRef = some enumRef)
      (hmap : registry.getEnum enumRef = some enumMap) (hlabel : Labels enumMap v n label) :
      FieldShown crates registry options field v (renderLabel options n label)
  | scalar {v x out} (href : field.enumRef = none) (htarget : field.target = none)
      (hread : readScalar crates field.fieldType v = some x)
      (hshow : showScalar crates options field.fieldType x = some out) :
      FieldShown crates registry options field v out

/-- No tag of a type is among the unknown ones. -/
def NoneUnknown (desc : TypeVersionSpec) (unknown : JsonValue) : Prop :=
  ∀ tag ∈ desc.fields, unknown.get (Decimal.print tag.toNat) = none

/-- **What a projection returns of a payload**: every field of every object that the payload
reaches, at the path of the object and under its own name; and none of them as unknown. -/
structure Returned (crates : PayloadCrates) (registry : Registry) (options : RenderOptions)
    (desc : TypeVersionSpec) (obj : JsonFields) (result : ProjectionResult) : Prop where
  fields : ∀ path desc' obj', Nested registry desc obj path desc' obj' →
    ∃ data, result.data.follow path = some (.object data) ∧
      ∀ tag field v, desc'.fields.lookup tag = some field → obj'.lookup field.name = some v →
        ∃ out, data.lookup field.name = some out ∧
          FieldShown crates registry options field v out
  unknown : ∀ unknown, result.unknown = some unknown → NoneUnknown desc unknown
  nested_unknown : ∀ path desc' obj' data unknown, Nested registry desc obj path desc' obj' →
    path ≠ [] → (∀ tag field, desc'.fields.lookup tag = some field → field.name ≠ "_unknown") →
      result.data.follow path = some (.object data) →
        data.lookup "_unknown" = some unknown → NoneUnknown desc' unknown

/-- The crate reads back what it has written. -/
def PayloadCrates.ReadsBack (crates : PayloadCrates) (value : MsgpackValue) : Prop :=
  ∃ bytes, crates.writeValue value = .ok bytes ∧ crates.readValue bytes = .ok value

/-! ### The tags of an encoded object -/

theorem mem_declared {obj : JsonFields}
    {rs : List (Option (MsgpackValue × MsgpackValue))} {tagged : List (UInt64 × FieldSpec)}
    (hrs : List.Forall₂ (fun entry r => encodeTagged crates registry order obj entry = .ok r)
      tagged rs) {tag : UInt64} {field : FieldSpec} (hmem : (tag, field) ∈ tagged) {v : JsonValue}
    (hv : obj.lookup field.name = some v) :
    ∃ w, encodeFieldValue crates registry order v field = .ok w ∧
      (MsgpackValue.integer tag.toNat, w) ∈ rs.reduceOption := by
  induction hrs with
  | nil => cases hmem
  | @cons entry r tagged rs hr _ ih =>
      rcases List.mem_cons.mp hmem with rfl | hmem
      · rw [encodeTagged, hv] at hr
        dsimp only at hr
        cases hw : encodeFieldValue crates registry order v field with
        | error e =>
            rw [hw] at hr
            cases hr
        | ok w =>
            rw [hw] at hr
            obtain rfl := Except.ok.inj hr
            exact ⟨w, rfl, List.reduceOption_mem_iff.mpr List.mem_cons_self⟩
      · obtain ⟨w, hw, hin⟩ := ih hmem
        refine ⟨w, hw, List.reduceOption_mem_iff.mpr (List.mem_cons_of_mem _ ?_)⟩
        exact List.reduceOption_mem_iff.mp hin

theorem encodeObject_entries {obj : JsonFields} {desc : TypeVersionSpec} {value : MsgpackValue}
    (h : encodeObjectWithDescriptor crates registry order obj desc = .ok value) :
    ∃ rs, List.Forall₂ (fun entry r => encodeTagged crates registry order obj entry = .ok r)
        desc.taggedFields rs ∧
      value = .map (rs.reduceOption ++ encodeExtra obj desc) := by
  rw [encodeObject_eq] at h
  cases hloop : desc.taggedFields.mapM (encodeTagged crates registry order obj) with
  | error e =>
      rw [hloop] at h
      cases h
  | ok rs =>
      rw [hloop] at h
      exact ⟨rs, mapM_ok_iff.mp hloop, (Except.ok.inj h).symm⟩

/-- The tag of a field of the type. -/
theorem declared_tag {desc : TypeVersionSpec} {obj : JsonFields}
    {rs : List (Option (MsgpackValue × MsgpackValue))}
    (hrs : List.Forall₂ (fun entry r => encodeTagged crates registry order obj entry = .ok r)
      desc.taggedFields rs) {entry : MsgpackValue × MsgpackValue} {tag : UInt64}
    (hentry : entry ∈ rs.reduceOption) (htag : keyToTag entry.1 = some tag) :
    entry.1 = .integer tag.toNat ∧ tag ∈ desc.fields := by
  have hkey : entry.1 ∈ rs.reduceOption.map Prod.fst := List.mem_map_of_mem hentry
  rw [keys_reduceOption hrs] at hkey
  obtain ⟨⟨tag', field⟩, hmem, heq⟩ := List.mem_map.mp hkey
  rw [← heq, keyToTag_integer] at htag
  obtain rfl := Option.some.inj htag
  exact ⟨heq.symm, Finmap.mem_of_lookup_eq_some
    (mem_taggedFields.mp (List.mem_filter.mp hmem).1)⟩

/-- Where a tag of an encoded object comes from. -/
theorem tag_cases {desc : TypeVersionSpec} {obj : JsonFields}
    {rs : List (Option (MsgpackValue × MsgpackValue))}
    (hrs : List.Forall₂ (fun entry r => encodeTagged crates registry order obj entry = .ok r)
      desc.taggedFields rs) {entry : MsgpackValue × MsgpackValue} {tag : UInt64}
    (hentry : entry ∈ rs.reduceOption ++ encodeExtra obj desc)
    (htag : keyToTag entry.1 = some tag) :
    (entry.1 = .integer tag.toNat ∧ tag ∈ desc.fields) ∨
      ∃ extra ∈ extraFields obj desc, Decimal.parseU64 extra.1 = some tag := by
  rcases List.mem_append.mp hentry with hentry | hentry
  · exact .inl (declared_tag hrs hentry htag)
  · obtain ⟨extra, hextra, rfl⟩ := List.mem_map.mp hentry
    exact .inr ⟨extra, hextra, by rwa [← keyToTag_plainKey]⟩

/-- **The value of a field is found under its tag.** -/
theorem lookup_tagMap {desc : TypeVersionSpec} {obj : JsonFields}
    (hkept : ObjectKept crates registry options desc obj)
    {rs : List (Option (MsgpackValue × MsgpackValue))}
    (hrs : List.Forall₂ (fun entry r => encodeTagged crates registry order obj entry = .ok r)
      desc.taggedFields rs) {tag : UInt64} {field : FieldSpec}
    (hfield : desc.fields.lookup tag = some field) {v : JsonValue}
    (hv : obj.lookup field.name = some v) :
    ∃ w, encodeFieldValue crates registry order v field = .ok w ∧
      (tagMap (rs.reduceOption ++ encodeExtra obj desc)).lookup tag = some w := by
  obtain ⟨w, hw, hmem⟩ := mem_declared hrs (mem_taggedFields.mpr hfield) hv
  refine ⟨w, hw, ?_⟩
  have hin : (MsgpackValue.integer tag.toNat, w) ∈ rs.reduceOption ++ encodeExtra obj desc :=
    List.mem_append_left _ hmem
  refine LastWrite.lookup_insertAll_of_unique (b := (tag, w)) (List.mem_filterMap.mpr
    ⟨_, hin, by rw [taggedEntry, keyToTag_integer]; rfl⟩) fun c hc heq => ?_
  obtain ⟨entry, hentry, htagged⟩ := List.mem_filterMap.mp hc
  obtain ⟨tag', htag', rfl⟩ := Option.map_eq_some_iff.mp htagged
  obtain rfl : tag' = tag := heq
  rcases tag_cases hrs hentry htag' with ⟨hkey, -⟩ | ⟨extra, hextra, hparse⟩
  · have hsame := List.inj_on_of_nodup_map (nodup_keys hkept hrs) hentry hin hkey
    rw [hsame]
  · rw [hkept.extra_free extra hextra _ field hparse hfield] at hv
    cases hv

/-! ### Objects shown -/

/-- Every field of an object is shown as the projector renders what the encoder stores. -/
def ObjectShown (crates : PayloadCrates) (registry : Registry) (options : RenderOptions)
    (order order' : HashOrder) (desc : TypeVersionSpec) (obj data : JsonFields) : Prop :=
  ∀ tag field v, desc.fields.lookup tag = some field → obj.lookup field.name = some v →
    ∃ w, encodeFieldValue crates registry order v field = .ok w ∧
      data.lookup field.name = some (renderFieldValue crates options registry order' w field)

/-- What an object reports as unknown, if it can be told from its fields. -/
def UnknownShown (desc : TypeVersionSpec) (data : JsonFields) : Prop :=
  (∀ tag field, desc.fields.lookup tag = some field → field.name ≠ "_unknown") →
    ∀ unknown, data.lookup "_unknown" = some unknown → NoneUnknown desc unknown

variable {order' : HashOrder}

variable (order') in
theorem projected_shown {desc : TypeVersionSpec} {obj : JsonFields} {value : MsgpackValue}
    (hobj : encodeObjectWithDescriptor crates registry order obj desc = .ok value)
    (hkept : ObjectKept crates registry options desc obj) (place : List String) :
    ∃ entries, value = .map entries ∧
      ObjectShown crates registry options order order' desc obj
        (projectedFields crates options registry order' desc place (tagMap entries)) := by
  obtain ⟨rs, hrs, rfl⟩ := encodeObject_entries hobj
  refine ⟨_, rfl, fun tag field v hfield hv => ?_⟩
  obtain ⟨w, hw, hlookup⟩ := lookup_tagMap hkept hrs hfield hv
  obtain ⟨tag', field', w', hfield', hlookup', hname, hshown⟩ :=
    exists_lookup_projected crates options registry order' place hfield hlookup
  obtain rfl := hkept.names tag' tag field' field hfield' hfield hname (by rw [hname, hv]; rfl)
  obtain ⟨w'', hw'', hsame⟩ := lookup_tagMap hkept hrs hfield' hv
  rw [hlookup'] at hsame
  exact ⟨w'', hw'', by rw [hshown, Option.some.inj hsame]⟩

variable (crates options order) in
/-- **A nested object is an object again**, whatever map it is stored as. -/
theorem renderTypeRef_map {typeRef : String} {desc : TypeVersionSpec}
    (hdesc : registry.getLatestTypeVersion typeRef = some desc)
    (entries : List (MsgpackValue × MsgpackValue)) :
    ∃ data, renderTypeRef crates options registry order (.map entries) typeRef = .object data ∧
      UnknownShown desc data := by
  rw [renderTypeRef_eq hdesc (normalizeTags_map entries)]
  dsimp only
  split_ifs with hunknown
  · refine ⟨_, rfl, fun _ unknown hlookup tag htag => ?_⟩
    rw [lookup_insertField, if_pos rfl] at hlookup
    rw [← Option.some.inj hlookup]
    exact lookup_unknown_none htag
  · refine ⟨_, rfl, fun hnames unknown hlookup => ?_⟩
    rw [lookup_projected_none fun tag field hfield _ => hnames tag field hfield] at hlookup
    cases hlookup

variable (order') in
theorem renderTypeRef_shown {typeRef : String} {desc : TypeVersionSpec}
    (hdesc : registry.getLatestTypeVersion typeRef = some desc) {obj : JsonFields}
    {value : MsgpackValue}
    (hobj : encodeObjectWithDescriptor crates registry order obj desc = .ok value)
    (hkept : ObjectKept crates registry options desc obj) (hfree : UnknownFree options desc obj) :
    ∃ data, renderTypeRef crates options registry order' value typeRef = .object data ∧
      ObjectShown crates registry options order order' desc obj data ∧ UnknownShown desc data := by
  obtain ⟨entries, rfl, hshown⟩ := projected_shown order' hobj hkept [typeRef]
  obtain ⟨data, hdata, hunknown⟩ := renderTypeRef_map crates options order' hdesc entries
  refine ⟨data, hdata, fun tag field v hfield hv => ?_, hunknown⟩
  obtain ⟨w, hw, hlookup⟩ := hshown tag field v hfield hv
  refine ⟨w, hw, ?_⟩
  rw [renderTypeRef_eq hdesc (normalizeTags_map entries)] at hdata
  dsimp only at hdata
  split_ifs at hdata with hreported
  · obtain rfl := JsonValue.object.inj hdata
    rw [lookup_insertField]
    by_cases hname : field.name = "_unknown"
    · -- every tag is known, so that nothing is reported
      obtain ⟨rs, hrs, hentries⟩ := encodeObject_entries hobj
      refine absurd (unknown_eq_nil fun tag' val hval => ?_) hreported.2
      rcases LastWrite.exists_of_lookup_insertAll hval with ⟨c, hc, rfl, -⟩ | hempty
      · obtain ⟨entry, hentry, htagged⟩ := List.mem_filterMap.mp hc
        obtain ⟨tag'', htag'', rfl⟩ := Option.map_eq_some_iff.mp htagged
        rw [MsgpackValue.map.inj hentries] at hentry
        rcases tag_cases hrs hentry htag'' with ⟨-, hknown⟩ | ⟨extra, hextra, hparse⟩
        · exact hknown
        · exact hfree hreported.1 tag field hfield hname (by rw [hv]; rfl) extra hextra _ hparse
      · simp at hempty
    · rw [if_neg hname, hlookup]
  · obtain rfl := JsonValue.object.inj hdata
    exact hlookup

/-! ### Fields shown -/

theorem renderEnum_map (entries : List (MsgpackValue × MsgpackValue)) (field : FieldSpec) :
    renderEnum options registry (.map entries) field = none := by
  rw [renderEnum]
  cases field.enumRef <;> rfl

theorem renderEnum_array (items : List MsgpackValue) (field : FieldSpec) :
    renderEnum options registry (.array items) field = none := by
  rw [renderEnum]
  cases field.enumRef <;> rfl

theorem renderFieldValue_target {field : FieldSpec} {typeRef : String} {value : MsgpackValue}
    (henum : renderEnum options registry value field = none)
    (htarget : field.target = some typeRef) :
    renderFieldValue crates options registry order value field =
      renderTypeRef crates options registry order value typeRef := by
  rw [FieldSpec.target] at htarget
  split_ifs at htarget with htype
  rw [renderFieldValue, henum, htarget, decide_eq_true htype]

theorem target_of_array {field : FieldSpec} (h : field.fieldType = "array") :
    field.target = none := by
  rw [FieldSpec.target, h]
  rfl

theorem renderFieldValue_refs {field : FieldSpec} {typeRef : String}
    (htarget : field.itemTarget = some typeRef) (items : List MsgpackValue) :
    renderFieldValue crates options registry order (.array items) field =
      .array (items.map fun item => renderTypeRef crates options registry order item typeRef) := by
  rw [FieldSpec.itemTarget] at htarget
  split_ifs at htarget with htype
  split at htarget
  · next typeRef' hitems =>
    obtain rfl := Option.some.inj htarget
    rw [renderFieldValue_eq (renderEnum_array items field) (target_of_array htype)]
    simp only [htype, hitems]
    rw [renderArray]
  · cases htarget

theorem renderFieldValue_items {field : FieldSpec} {itemType : String}
    (htype : field.itemType = some itemType) (items : List MsgpackValue) :
    renderFieldValue crates options registry order (.array items) field =
      .array (items.map fun item =>
        renderFieldValue crates options registry order item (dummyField itemType)) := by
  rw [FieldSpec.itemType] at htype
  split_ifs at htype with harray
  split at htype
  · next itemType' hitems =>
    obtain rfl := Option.some.inj htype
    rw [renderFieldValue_eq (renderEnum_array items field) (target_of_array harray)]
    simp only [harray, hitems]
    rw [renderArray]
  · cases htype

theorem exists_showScalar {type : String} {v : JsonValue} {x : Scalar}
    (hread : readScalar crates type v = some x) (hkept : ScalarKept crates options type v) :
    ∃ out, showScalar crates options type x = some out := by
  cases x with
  | integer n =>
      rw [showScalar]
      split_ifs with htime
      · cases hrender : options.timeRender with
        | unixMs => exact ⟨_, rfl⟩
        | iso =>
            obtain ⟨text, htext⟩ := Option.isSome_iff_exists.mp
              (hkept.dated htime hrender n hread)
            exact ⟨.string text, by rw [htext]; rfl⟩
      · exact ⟨_, rfl⟩
      · exact ⟨_, rfl⟩
  | null | text | flag | float | bytes => exact ⟨_, rfl⟩

theorem renderArray_nil (items : Option ItemsSpec) :
    renderArray crates options registry order .nil items = .null := by
  rw [renderArray.eq_def]

theorem renderFieldValue_nil (field : FieldSpec) :
    renderFieldValue crates options registry order .nil field = .null := by
  have henum : renderEnum options registry .nil field = none := by
    rw [renderEnum]
    cases field.enumRef <;> rfl
  have hraw : renderValue crates options .nil = .null := by rw [renderValue]
  cases htarget : field.target with
  | some typeRef =>
      rw [renderFieldValue_target henum htarget, renderTypeRef]
      split
      · next h => cases h
      · exact hraw
  | none =>
      rw [renderFieldValue_eq henum htarget]
      split
      all_goals first
        | rfl
        | exact hraw
        | exact renderArray_nil field.items

/-- **A value of a field is shown.** -/
theorem field_shown {field : FieldSpec} {v : JsonValue} {w : MsgpackValue}
    (hcase : FieldConforms crates registry field v)
    (hkept : FieldKept crates registry options field v)
    (hw : encodeFieldValue crates registry order v field = .ok w) :
    FieldShown crates registry options field v
      (renderFieldValue crates options registry order' w field) := by
  cases hcase with
  | null =>
      rw [encodeFieldValue] at hw
      rw [← Except.ok.inj hw, renderFieldValue_nil]
      exact .null
  | @ref typeRef desc obj htarget hdesc =>
      obtain ⟨entries, rfl⟩ : ∃ entries, w = .map entries := by
        have htype := htarget
        rw [FieldSpec.target] at htype
        split_ifs at htype with hcases
        rcases hcases with hcases | hcases
        · rw [encodeFieldValue_ref hcases htype hdesc] at hw
          obtain ⟨rs, -, rfl⟩ := encodeObject_entries hw
          exact ⟨_, rfl⟩
        · rw [encodeFieldValue_map hcases, jsonToMsgpackValue] at hw
          exact ⟨_, (Except.ok.inj hw).symm⟩
      obtain ⟨data, hdata, -⟩ := renderTypeRef_map crates options order' hdesc entries
      rw [renderFieldValue_target (renderEnum_map entries field) htarget, hdata]
      exact .ref (by rw [htarget]; rfl)
  | @refs typeRef desc items htarget hdesc hitems =>
      rw [encodeFieldValue_refs htarget] at hw
      cases hloop : items.mapM fun item => encodeRefValue crates registry order item typeRef with
      | error e =>
          rw [hloop] at hw
          cases hw
      | ok ws =>
          rw [hloop] at hw
          rw [← Except.ok.inj hw, renderFieldValue_refs htarget]
          refine .refs (by rw [htarget]; rfl) ?_
          rw [List.length_map, (mapM_ok_iff.mp hloop).length_eq]
  | @scalars itemType items htype hitems =>
      rw [encodeFieldValue_items htype] at hw
      cases hloop : items.mapM fun item => encodeValueForType crates item itemType with
      | error e =>
          rw [hloop] at hw
          cases hw
      | ok ws =>
          rw [hloop] at hw
          rw [← Except.ok.inj hw, renderFieldValue_items htype]
          refine .scalars htype ?_
          have hall := hkept.items itemType items htype rfl
          have hws := mapM_ok_iff.mp hloop
          clear hloop hw hkept
          induction hws with
          | nil => exact .nil
          | @cons item w items ws hitem _ ih =>
              obtain ⟨x, hx⟩ := hitems item List.mem_cons_self
              have hscalar := hall item List.mem_cons_self
              obtain ⟨out, hout⟩ := exists_showScalar hx hscalar
              rw [encodeValueForType_scalar hx hscalar.number] at hitem
              refine .cons ⟨x, hx, ?_⟩ (ih
                (fun item h => hitems item (List.mem_cons_of_mem _ h))
                fun item h => hall item (List.mem_cons_of_mem _ h))
              rw [← Except.ok.inj hitem, hout]
              have hrender : renderFieldValue crates options registry order' x.toMsgpack
                  (dummyField itemType) = out :=
                renderFieldValue_scalar rfl (ite_self _) hx hscalar hout
              exact congrArg some hrender.symm
  | label href henum hv =>
      obtain ⟨n, label, hencode, hlabel⟩ := encodeFieldValue_label href henum hv
        (hkept.label _ _ href henum)
      rw [hencode] at hw
      have hrender := renderEnum_label options href henum hlabel.1
      rw [← Except.ok.inj hw, renderFieldValue, hrender]
      exact .label href henum hlabel
  | @scalar _ x href htarget hread =>
      by_cases hnull : v = .null
      · subst hnull
        rw [encodeFieldValue] at hw
        rw [← Except.ok.inj hw, renderFieldValue_nil]
        exact .null
      · have hscalar := hkept.scalar href htarget
        obtain ⟨out, hout⟩ := exists_showScalar hread hscalar
        rw [encodeFieldValue_scalar href htarget hnull hread hscalar.number] at hw
        rw [← Except.ok.inj hw, renderFieldValue_scalar href htarget hread hscalar hout]
        exact .scalar href htarget hread hout

/-! ### Every object shown -/

/-- **The objects of a payload are shown at their paths**, by induction on the path. -/
theorem nested_shown {desc desc' : TypeVersionSpec} {obj obj' : JsonFields}
    {path : List PathStep} (h : Nested registry desc obj path desc' obj')
    (hkept : Kept crates registry options desc obj) {below : Prop} {data : JsonFields}
    (hshown : ObjectShown crates registry options order order' desc obj data)
    (hunknown : below → UnknownShown desc data) :
    ∃ data', (JsonValue.object data).follow path = some (.object data') ∧
      ObjectShown crates registry options order order' desc' obj' data' ∧
      (below ∨ path ≠ [] → UnknownShown desc' data') := by
  induction h generalizing data below with
  | refl => exact ⟨data, rfl, hshown, fun h => hunknown (h.resolve_right fun h => h rfl)⟩
  | @field desc obj tag field typeRef desc₁ obj₁ path desc' obj' hfield htarget hdesc hvalue
      hrest ih =>
      obtain ⟨w, hw, hlookup⟩ := hshown tag field _ hfield hvalue
      have hnext : Kept crates registry options desc₁ obj₁ := fun path d o h =>
        ⟨(hkept _ d o (.field hfield htarget hdesc hvalue h)).1,
          fun _ => (hkept _ d o (.field hfield htarget hdesc hvalue h)).2 (by simp)⟩
      have hroot := hkept _ desc₁ obj₁ (.field hfield htarget hdesc hvalue .refl)
      obtain ⟨data₁, hdata₁, hshown₁, hunknown₁⟩ : ∃ data₁,
          renderFieldValue crates options registry order' w field = .object data₁ ∧
          ObjectShown crates registry options order order' desc₁ obj₁ data₁ ∧
          UnknownShown desc₁ data₁ := by
        have htype := htarget
        rw [FieldSpec.target] at htype
        split_ifs at htype with hcases
        rcases hcases with hcases | hcases
        · rw [encodeFieldValue_ref hcases htype hdesc] at hw
          obtain ⟨rs, -, hentries⟩ := encodeObject_entries hw
          rw [renderFieldValue_target (by rw [hentries]; exact renderEnum_map _ field) htarget]
          exact renderTypeRef_shown order' hdesc hw hroot.1 (hroot.2 (by simp))
        · -- a map that is stored as it is has no field of its type
          rw [encodeFieldValue_map hcases, jsonToMsgpackValue] at hw
          rw [← Except.ok.inj hw, renderFieldValue_target (renderEnum_map _ field) htarget]
          obtain ⟨data₁, hdata₁, hunknown₁⟩ := renderTypeRef_map crates options order' hdesc
            (obj₁.map fun entry => (plainKey entry.1, jsonToMsgpackValue entry.2))
          refine ⟨data₁, hdata₁, fun tag' field' v hfield' hv => ?_, hunknown₁⟩
          have hnone := ((hkept [] desc obj .refl).1.maps tag field typeRef desc₁ obj₁ hfield
            hcases htype hdesc hvalue).1 tag' field' hfield'
          rw [hnone] at hv
          cases hv
      obtain ⟨data', hfollow, hshown', hunknown'⟩ := ih hnext hshown₁ fun _ : True => hunknown₁
      refine ⟨data', ?_, hshown', fun _ => hunknown' (.inl trivial)⟩
      rw [JsonValue.follow, JsonValue.get, hlookup, hdata₁]
      exact hfollow
  | @item desc obj tag field typeRef desc₁ items index obj₁ path desc' obj' hfield htarget hdesc
      hvalue hitem hrest ih =>
      obtain ⟨w, hw, hlookup⟩ := hshown tag field _ hfield hvalue
      have hnext : Kept crates registry options desc₁ obj₁ := fun path d o h =>
        ⟨(hkept _ d o (.item hfield htarget hdesc hvalue hitem h)).1,
          fun _ => (hkept _ d o (.item hfield htarget hdesc hvalue hitem h)).2 (by simp)⟩
      have hroot := hkept _ desc₁ obj₁ (.item hfield htarget hdesc hvalue hitem .refl)
      rw [encodeFieldValue_refs htarget] at hw
      cases hloop : items.mapM fun item => encodeRefValue crates registry order item typeRef with
      | error e =>
          rw [hloop] at hw
          cases hw
      | ok ws =>
          rw [hloop] at hw
          rw [← Except.ok.inj hw, renderFieldValue_refs htarget] at hlookup
          obtain ⟨w₁, hw₁, hencode⟩ : ∃ w₁, ws[index]? = some w₁ ∧
              encodeRefValue crates registry order (.object obj₁) typeRef = .ok w₁ := by
            have hws := mapM_ok_iff.mp hloop
            have hlt := (List.getElem?_eq_some_iff.mp hitem).1
            have hlt' : index < ws.length := hws.length_eq ▸ hlt
            refine ⟨ws[index], List.getElem?_eq_getElem hlt', ?_⟩
            have hget := List.forall₂_iff_get.mp hws
            have := hget.2 index hlt hlt'
            rw [List.get_eq_getElem, List.get_eq_getElem,
              (List.getElem?_eq_some_iff.mp hitem).2] at this
            exact this
          rw [encodeRefValue_eq hdesc] at hencode
          obtain ⟨data₁, hdata₁, hshown₁, hunknown₁⟩ := renderTypeRef_shown order'
            hdesc hencode hroot.1 (hroot.2 (by simp))
          obtain ⟨data', hfollow, hshown', hunknown'⟩ := ih hnext hshown₁
            fun _ : True => hunknown₁
          refine ⟨data', ?_, hshown', fun _ => hunknown' (.inl trivial)⟩
          rw [JsonValue.follow, JsonValue.get, hlookup, Option.bind_some, JsonValue.follow,
            JsonValue.asArray, Option.bind_some, List.getElem?_map, hw₁, Option.map_some, hdata₁]
          exact hfollow

/-- **Nested payloads there and back.** A payload that conforms to its type, and that the
encoder and the projector agree on, is encoded, with distinct keys in every map, and projected
back: every field of every object that it reaches has its own value, and none is reported as
unknown. -/
theorem nested_round_trip {typeId : String} {typeVersion : UInt32} {desc : TypeVersionSpec}
    {obj : JsonFields} (hdesc : registry.getTypeVersion typeId typeVersion = some desc)
    (hconf : Conforms crates registry desc obj) (hkept : Kept crates registry options desc obj)
    (hcrate : ∀ value, encodeObjectWithDescriptor crates registry order obj desc = .ok value →
      crates.ReadsBack value) :
    ∃ value payload result,
      encodeObjectWithDescriptor crates registry order obj desc = .ok value ∧
      value.DistinctTags ∧
      encodeHttpPayload crates registry order (.object obj) typeId typeVersion = .ok payload ∧
      crates.readValue payload = .ok value ∧
      projectMsgpack crates options registry order' payload desc = .ok result ∧
      Returned crates registry options desc obj result := by
  obtain ⟨entries, hvalue, hdistinct⟩ := encodeObject_ok order hconf
    fun path d o h => (hkept path d o h).1
  obtain ⟨payload, hwrite, hread⟩ := hcrate _ hvalue
  obtain ⟨entries', hentries, hshown⟩ := projected_shown order' hvalue
    (hkept [] desc obj .refl).1 []
  obtain rfl := MsgpackValue.map.inj hentries
  have hnested : ∀ path d o, Nested registry desc obj path d o → ∃ data,
      (JsonValue.object (projectedFields crates options registry order' desc []
        (tagMap entries))).follow path = some (.object data) ∧
      ObjectShown crates registry options order order' d o data ∧
      (False ∨ path ≠ [] → UnknownShown d data) := fun path d o h =>
    nested_shown h hkept hshown False.elim
  refine ⟨.map entries, payload, projection crates options registry order' desc (tagMap entries),
    hvalue, hdistinct, ?_, hread, projectMsgpack_eq hread, ?_⟩
  · simp only [encodeHttpPayload, hdesc, hvalue, hwrite, bind, Except.bind]
    rfl
  · refine ⟨fun path d o h => ?_, fun unknown hsome tag htag => ?_,
      fun path d o data unknown h hpath hnames hfollow hlookup => ?_⟩
    · obtain ⟨data, hfollow, hdata, -⟩ := hnested path d o h
      refine ⟨data, hfollow, fun tag field v hfield hv => ?_⟩
      obtain ⟨w, hw, hlookup⟩ := hdata tag field v hfield hv
      have hcase := hconf path d o h tag field hfield
      rw [hv] at hcase
      exact ⟨_, hlookup, field_shown hcase
        ((hkept path d o h).1.fields tag field v hfield hv) hw⟩
    · rw [projection] at hsome
      split_ifs at hsome
      obtain rfl := Option.some.inj hsome
      exact lookup_unknown_none htag
    · obtain ⟨data', hfollow', -, hunknown⟩ := hnested path d o h
      obtain rfl := JsonValue.object.inj (Option.some.inj (hfollow.symm.trans hfollow'))
      exact hunknown (.inr hpath) hnames unknown hlookup

/-! ### A map with a reference -/

/-- A field that holds an object of another type. -/
def handoffField (fieldType : String) : FieldSpec where
  name := "handoff"
  fieldType := fieldType
  enumRef := none
  typeRef := some "test:Inner"
  optional := true
  items := none

def fromAgentField : FieldSpec where
  name := "from_agent"
  fieldType := "string"
  enumRef := none
  typeRef := none
  optional := false
  items := none

def outerType (fieldType : String) : TypeVersionSpec where
  version := 1
  fields := Finmap.singleton 13 (handoffField fieldType)
  renderer := none

def innerType : TypeVersionSpec where
  version := 1
  fields := Finmap.singleton 1 fromAgentField
  renderer := none

def handoffRegistry (fieldType : String) : Registry :=
  { Registry.empty with
    types := ((∅ : HashMap String TypeSpec).insert "test:Outer"
      { TypeSpec.empty with versions := Finmap.singleton 1 (outerType fieldType) }).insert
      "test:Inner" { TypeSpec.empty with versions := Finmap.singleton 1 innerType } }

def innerPayload : JsonFields := [("from_agent", .string "root")]

def outerPayload : JsonFields := [("handoff", .object innerPayload)]

theorem handoffRegistry_inner (fieldType : String) :
    (handoffRegistry fieldType).getLatestTypeVersion "test:Inner" = some innerType := by
  rw [Registry.getLatestTypeVersion, handoffRegistry, Finmap.lookup_insert, Option.bind_some]
  decide

theorem handoffRegistry_outer (fieldType : String) :
    (handoffRegistry fieldType).getTypeVersion "test:Outer" 1 = some (outerType fieldType) := by
  rw [Registry.getTypeVersion, handoffRegistry, Finmap.lookup_insert_of_ne _ (by decide),
    Finmap.lookup_insert, Option.bind_some, Finmap.lookup_singleton_eq]

theorem of_lookup_singleton {κ α : Type} [DecidableEq κ] {k k' : κ} {a a' : α}
    (h : (Finmap.singleton k a : HashMap κ α).lookup k' = some a') : k' = k ∧ a' = a := by
  have hmem := Finmap.mem_of_lookup_eq_some h
  rw [Finmap.mem_singleton] at hmem
  subst hmem
  rw [Finmap.lookup_singleton_eq] at h
  exact ⟨rfl, (Option.some.inj h).symm⟩

/-- The two objects of the payload. -/
theorem nested_handoff {fieldType : String} {path : List PathStep} {desc : TypeVersionSpec}
    {obj : JsonFields}
    (h : Nested (handoffRegistry fieldType) (outerType fieldType) outerPayload path desc obj) :
    (path = [] ∧ desc = outerType fieldType ∧ obj = outerPayload) ∨
      (path = [.field "handoff"] ∧ desc = innerType ∧ obj = innerPayload) := by
  cases h with
  | refl => exact .inl ⟨rfl, rfl, rfl⟩
  | field hfield htarget hdesc hvalue hrest =>
      obtain ⟨-, rfl⟩ := of_lookup_singleton hfield
      rw [FieldSpec.target] at htarget
      split_ifs at htarget
      obtain rfl := Option.some.inj htarget
      rw [handoffRegistry_inner] at hdesc
      obtain rfl := Option.some.inj hdesc
      obtain rfl := JsonValue.object.inj (Option.some.inj hvalue)
      cases hrest with
      | refl => exact .inr ⟨rfl, rfl, rfl⟩
      | field hfield _ _ hvalue =>
          obtain ⟨-, rfl⟩ := of_lookup_singleton hfield
          cases hvalue
      | item hfield _ _ hvalue =>
          obtain ⟨-, rfl⟩ := of_lookup_singleton hfield
          cases hvalue
  | item hfield _ _ hvalue =>
      obtain ⟨-, rfl⟩ := of_lookup_singleton hfield
      cases hvalue

theorem conforms_handoff {fieldType : String} (h : fieldType = "ref" ∨ fieldType = "map") :
    Conforms crates (handoffRegistry fieldType) (outerType fieldType) outerPayload := by
  intro path desc obj hnested tag field hfield
  rcases nested_handoff hnested with ⟨-, rfl, rfl⟩ | ⟨-, rfl, rfl⟩
  · obtain ⟨-, rfl⟩ := of_lookup_singleton hfield
    have htarget : (handoffField fieldType).target = some "test:Inner" := if_pos h
    exact .ref htarget (handoffRegistry_inner fieldType)
  · obtain ⟨-, rfl⟩ := of_lookup_singleton hfield
    exact .scalar (x := .text "root") rfl rfl rfl

/-- The crates as they are on one value and its bytes. -/
def cratesFor (value : MsgpackValue) (payload : Bytes) : PayloadCrates where
  writeValue _ := .ok payload
  readValue _ := .ok value
  base64Encode _ := ""
  base64Decode _ := .error ""
  hexEncode _ := ""
  hexDecode _ := .error ""
  rfc3339 _ := none
  widen _ := 0

/-- How the server renders by default. -/
def defaultOptions : RenderOptions where
  bytesRender := .base64
  u64Format := .string
  enumRender := .label
  timeRender := .iso
  includeUnknown := true

/-- An object under its tag, which has a field under the key. -/
def handoffValue (key : MsgpackValue) : MsgpackValue :=
  .map [(.integer 13, .map [(key, .string (some "root"))])]

theorem encode_innerPayload (fieldType : String) :
    encodeObjectWithDescriptor crates (handoffRegistry fieldType) order innerPayload innerType =
      .ok (.map [(.integer 1, .string (some "root"))]) := by
  have htagged : innerType.taggedFields = [(1, fromAgentField)] := by decide
  have hfield : encodeFieldValue crates (handoffRegistry fieldType) order (.string "root")
      fromAgentField = .ok (.string (some "root")) :=
    encodeFieldValue_scalar (x := .text "root") rfl rfl nofun rfl nofun
  have hextra : encodeExtra innerPayload innerType = [] := by
    rw [encodeExtra, extraFields, htagged]
    rfl
  have hentry : encodeTagged crates (handoffRegistry fieldType) order innerPayload
      (1, fromAgentField) = .ok (some (.integer 1, .string (some "root"))) := by
    rw [encodeTagged]
    exact congrArg (Except.map _) hfield
  rw [encodeObject_eq, htagged, hextra, List.mapM_cons, hentry]
  rfl

theorem taggedFields_outer (fieldType : String) :
    (outerType fieldType).taggedFields = [(13, handoffField fieldType)] := by
  have hkeys : (outerType fieldType).fields.keys = {13} := Finmap.keys_singleton _ _
  rw [TypeVersionSpec.taggedFields, hkeys,
    show IterationOrder.sorted (· ≤ ·) ({13} : Finset UInt64) = [13] by decide, entriesIn,
    List.filterMap_cons]
  rfl

theorem encode_outerPayload {fieldType : String} {w : MsgpackValue}
    (hw : encodeFieldValue crates (handoffRegistry fieldType) order (.object innerPayload)
      (handoffField fieldType) = .ok w) :
    encodeObjectWithDescriptor crates (handoffRegistry fieldType) order outerPayload
      (outerType fieldType) = .ok (.map [(.integer 13, w)]) := by
  have hextra : encodeExtra outerPayload (outerType fieldType) = [] := by
    rw [encodeExtra, extraFields, taggedFields_outer]
    rfl
  have hentry : encodeTagged crates (handoffRegistry fieldType) order outerPayload
      (13, handoffField fieldType) = .ok (some (.integer 13, w)) := by
    rw [encodeTagged]
    exact congrArg (Except.map _) hw
  rw [encodeObject_eq, taggedFields_outer, hextra, List.mapM_cons, hentry]
  rfl

theorem extraFields_handoff (fieldType : String) :
    extraFields outerPayload (outerType fieldType) = [] ∧
      extraFields innerPayload innerType = [] := by
  constructor
  · rw [extraFields, taggedFields_outer]
    rfl
  · rw [extraFields, show innerType.taggedFields = [(1, fromAgentField)] by decide]
    rfl

/-- A reference is kept. -/
theorem kept_handoff :
    Kept crates (handoffRegistry "ref") options (outerType "ref") outerPayload := by
  intro path desc obj hnested
  have hextra := extraFields_handoff "ref"
  rcases nested_handoff hnested with ⟨-, rfl, rfl⟩ | ⟨-, rfl, rfl⟩
  · have hno : ∀ entry ∈ extraFields outerPayload (outerType "ref"), False := by
      rw [hextra.1]
      exact fun entry h => nomatch h
    refine ⟨⟨fun tag field v hfield hv => ?_, fun tag tag' field field' hfield hfield' _ _ => ?_,
      fun tag field typeRef desc' obj' hfield htype => ?_, fun entry h => (hno entry h).elim, ?_,
      fun entry h => (hno entry h).elim⟩, fun _ _ _ _ _ _ _ entry h => (hno entry h).elim⟩
    · obtain ⟨-, rfl⟩ := of_lookup_singleton hfield
      exact ⟨nofun, nofun, nofun⟩
    · rw [(of_lookup_singleton hfield).2, (of_lookup_singleton hfield').2]
    · obtain ⟨-, rfl⟩ := of_lookup_singleton hfield
      exact absurd htype (by decide)
    · rw [hextra.1]
      exact List.nodup_nil
  · have hno : ∀ entry ∈ extraFields innerPayload innerType, False := by
      rw [hextra.2]
      exact fun entry h => nomatch h
    refine ⟨⟨fun tag field v hfield hv => ?_, fun tag tag' field field' hfield hfield' _ _ => ?_,
      fun tag field typeRef desc' obj' hfield htype => ?_, fun entry h => (hno entry h).elim, ?_,
      fun entry h => (hno entry h).elim⟩, fun _ _ _ _ _ _ _ entry h => (hno entry h).elim⟩
    · obtain ⟨-, rfl⟩ := of_lookup_singleton hfield
      exact ⟨nofun, fun _ _ => ⟨fun h => absurd h (by decide), fun h => absurd h (by decide),
        fun h => absurd h (by decide), fun h => absurd h (by decide)⟩, nofun⟩
    · rw [(of_lookup_singleton hfield).2, (of_lookup_singleton hfield').2]
    · obtain ⟨-, rfl⟩ := of_lookup_singleton hfield
      exact absurd htype (by decide)
    · rw [hextra.2]
      exact List.nodup_nil

/-- The bytes of the object, with its field under the tag. -/
def refBytes : Bytes := [0x81, 0x0d, 0x81, 0x01, 0xa4, 0x72, 0x6f, 0x6f, 0x74]

/-- The bytes of the object, with its field under the name. -/
def mapBytes : Bytes :=
  [0x81, 0x0d, 0x81, 0xaa, 0x66, 0x72, 0x6f, 0x6d, 0x5f, 0x61, 0x67, 0x65, 0x6e, 0x74, 0xa4, 0x72,
    0x6f, 0x6f, 0x74]

theorem nested_round_trip_handoff :
    ∃ value payload result,
      encodeObjectWithDescriptor (cratesFor (handoffValue (.integer 1)) refBytes)
        (handoffRegistry "ref") .sorted outerPayload (outerType "ref") = .ok value ∧
      value.DistinctTags ∧
      encodeHttpPayload (cratesFor (handoffValue (.integer 1)) refBytes) (handoffRegistry "ref")
        .sorted (.object outerPayload) "test:Outer" 1 = .ok payload ∧
      (cratesFor (handoffValue (.integer 1)) refBytes).readValue payload = .ok value ∧
      projectMsgpack (cratesFor (handoffValue (.integer 1)) refBytes) defaultOptions
        (handoffRegistry "ref") .sorted payload (outerType "ref") = .ok result ∧
      Returned (cratesFor (handoffValue (.integer 1)) refBytes) (handoffRegistry "ref")
        defaultOptions (outerType "ref") outerPayload result := by
  refine nested_round_trip (handoffRegistry_outer "ref") (conforms_handoff (.inl rfl))
    kept_handoff fun value hvalue => ?_
  rw [encode_outerPayload ((encodeFieldValue_ref rfl rfl (handoffRegistry_inner "ref") _).trans
    (encode_innerPayload "ref"))] at hvalue
  obtain rfl := Except.ok.inj hvalue
  exact ⟨refBytes, rfl, rfl⟩

/-- What is stored under its name is not found under its tag. -/
theorem lookup_plain {data : JsonFields} (h : renderTypeRef crates options
    (handoffRegistry "map") order (.map [(.string (some "from_agent"), .string (some "root"))])
      "test:Inner" = .object data) : data.lookup "from_agent" = none := by
  have hplain : tagMap [(MsgpackValue.string (some "from_agent"),
      MsgpackValue.string (some "root"))] = ∅ := rfl
  rw [renderTypeRef_eq (handoffRegistry_inner "map") (normalizeTags_map _), hplain] at h
  have hnone : (projectedFields crates options (handoffRegistry "map") order innerType
      ["test:Inner"] ∅).lookup "from_agent" = none :=
    lookup_projected_none fun tag field _ hmem => absurd hmem (Finmap.notMem_empty)
  dsimp only at h
  split_ifs at h
  · obtain rfl := JsonValue.object.inj h
    rw [lookup_insertField, if_neg (by decide), hnone]
  · obtain rfl := JsonValue.object.inj h
    exact hnone

/-- **A map with a reference comes back without its fields.** The payload conforms to its type,
but the object is stored under its names and read under its tags. -/
theorem map_with_ref_dropped :
    Conforms (cratesFor (handoffValue (.string (some "from_agent"))) mapBytes)
        (handoffRegistry "map") (outerType "map") outerPayload ∧
      ∃ payload result,
        encodeHttpPayload (cratesFor (handoffValue (.string (some "from_agent"))) mapBytes)
          (handoffRegistry "map") .sorted (.object outerPayload) "test:Outer" 1 = .ok payload ∧
        projectMsgpack (cratesFor (handoffValue (.string (some "from_agent"))) mapBytes)
          defaultOptions (handoffRegistry "map") .sorted payload (outerType "map") = .ok result ∧
        ¬ Returned (cratesFor (handoffValue (.string (some "from_agent"))) mapBytes)
          (handoffRegistry "map") defaultOptions (outerType "map") outerPayload result := by
  refine ⟨conforms_handoff (.inr rfl), mapBytes, _, ?_, projectMsgpack_eq rfl,
    fun hreturned => ?_⟩
  · simp only [encodeHttpPayload, handoffRegistry_outer, bind, Except.bind,
      encode_outerPayload (encodeFieldValue_map
        (show (handoffField "map").fieldType = "map" from rfl) innerPayload)]
    rfl
  · have hfield : (outerType "map").fields.lookup 13 = some (handoffField "map") :=
      Finmap.lookup_singleton_eq
    obtain ⟨data, hfollow, hfields⟩ := hreturned.fields [.field "handoff"] innerType innerPayload
      (.field hfield rfl (handoffRegistry_inner "map") rfl .refl)
    obtain ⟨out, hout, -⟩ := hfields 1 fromAgentField (.string "root")
      Finmap.lookup_singleton_eq rfl
    have hvalue : (tagMap [(MsgpackValue.integer 13, MsgpackValue.map
        [(.string (some "from_agent"), .string (some "root"))])]).lookup 13 =
          some (.map [(.string (some "from_agent"), .string (some "root"))]) := rfl
    obtain ⟨tag, field, value, hfield', hvalue', -, hlookup⟩ :=
      exists_lookup_projected _ _ _ _ [] hfield hvalue
    obtain ⟨rfl, rfl⟩ := of_lookup_singleton hfield'
    obtain rfl := Option.some.inj (hvalue.symm.trans hvalue')
    rw [renderFieldValue_target (renderEnum_map _ _) rfl] at hlookup
    rw [projection, JsonValue.follow, JsonValue.get] at hfollow
    have hdata := (congrArg (fun w => w.bind fun w => w.follow []) hlookup).symm.trans hfollow
    have hnone := lookup_plain (Option.some.inj hdata)
    exact absurd (hnone.symm.trans hout) (by simp)

end Cxdb
