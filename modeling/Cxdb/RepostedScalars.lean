import Cxdb.BinaryText
import Cxdb.PayloadRoundTrip

/-!
# Scalars That Are Posted Back

A client reads a field as the projector renders it, and posts what it has read. The encoder has
to guess what the text stands for: a number before a label, base64 before hexadecimal digits. The
hexadecimal text of an even number of bytes is base64 too, and a label may spell a number.

## Main results

* `rendered_scalar_iff`: when the encoder makes the stored value again.
* `rendered_hex_misread`: two bytes that become three.
-/

open ByteFormat IterationOrder

namespace Cxdb

open Projection

/-- **What the crates are documented to do**: base64 with the standard alphabet and padding, which
is read only if it is canonical, and hexadecimal digits. -/
structure PayloadCrates.Standard (crates : PayloadCrates) : Prop where
  base64Encode (bytes : Bytes) :
    crates.base64Encode bytes = String.ofList (Base64.encode bytes)
  base64Decode (s : String) :
    (crates.base64Decode s).toOption = Base64.decode s.toList
  hexEncode (bytes : Bytes) : crates.hexEncode bytes = String.ofList (Hex.encode bytes)
  hexDecode (s : String) : (crates.hexDecode s).toOption = Hex.decode s.toList

/-- No two numbers of the enum have one label. -/
def DistinctLabels (enumMap : EnumMapping) : Prop :=
  ∀ key key' label, enumMap.lookup key = some label → enumMap.lookup key' = some label → key = key'

/-- **A stored value of a field that is shown in full**: a text, a flag, bytes that are not just
counted, or a number of an enum, of which there is the label or the number; or nothing. -/
inductive ShownScalar (registry : Registry) (options : RenderOptions) (field : FieldSpec) :
    MsgpackValue → Prop
  | nil : ShownScalar registry options field .nil
  | text (s : String) : field.enumRef = none → field.fieldType = "string" →
      ShownScalar registry options field (.string (some s))
  | flag (b : Bool) : field.enumRef = none → field.fieldType = "bool" →
      ShownScalar registry options field (.boolean b)
  | bytes (bytes : Bytes) : field.enumRef = none → field.fieldType ∈ bytesTypes →
      options.bytesRender ≠ .lenOnly → ShownScalar registry options field (.binary bytes)
  | enum {enumRef : String} {enumMap : EnumMapping} (n : UInt64) {label : String} :
      field.enumRef = some enumRef → registry.getEnum enumRef = some enumMap →
      DistinctLabels enumMap → enumMap.lookup (Decimal.print n.toNat) = some label →
      options.enumRender ≠ .both → ShownScalar registry options field (.integer n.toNat)

/-- **A rendering that is read as what it stands for**: hexadecimal digits are those of no bytes
or of an odd number of them, and a label spells no other number. -/
structure Unambiguous (registry : Registry) (options : RenderOptions) (field : FieldSpec)
    (value : MsgpackValue) : Prop where
  hex (bytes : Bytes) : value = .binary bytes → options.bytesRender = .hex →
    bytes = [] ∨ bytes.length % 2 = 1
  label (enumRef : String) (enumMap : EnumMapping) (n : UInt64) (label : String) :
    field.enumRef = some enumRef → registry.getEnum enumRef = some enumMap →
    value = .integer n.toNat → enumMap.lookup (Decimal.print n.toNat) = some label →
    options.enumRender = .label → ∀ m, Decimal.parseU64 label = some m → m = n

variable {crates : PayloadCrates} {registry : Registry} {options : RenderOptions}
  {order order' : HashOrder} {field : FieldSpec}

/-! ### Bytes -/

theorem toOption_eq_some_iff {ε α : Type} {x : Except ε α} {a : α} :
    x.toOption = some a ↔ x = .ok a := by
  cases x with
  | error e => exact ⟨nofun, nofun⟩
  | ok b => exact ⟨fun h => congrArg Except.ok (Option.some.inj h), fun h => by cases h; rfl⟩

/-- A text that is base64 is read as such. -/
theorem parseBytesValue_base64 (h : crates.Standard) {s : String} {bytes : Bytes}
    (hs : Base64.decode s.toList = some bytes) :
    parseBytesValue crates (.string s) = .ok bytes := by
  have hok := toOption_eq_some_iff.mp ((h.base64Decode s).trans hs)
  rw [parseBytesValue, hok]

/-- Hexadecimal text is read as such if it is not base64. -/
theorem parseBytesValue_hex (h : crates.Standard) {s : String} {bytes : Bytes}
    (hbase64 : Base64.decode s.toList = none) (hs : Hex.decode s.toList = some bytes) :
    parseBytesValue crates (.string s) = .ok bytes := by
  have hok := toOption_eq_some_iff.mp ((h.hexDecode s).trans hs)
  have hfail := (h.base64Decode s).trans hbase64
  cases hdecode : crates.base64Decode s with
  | ok bytes' =>
      rw [hdecode] at hfail
      cases hfail
  | error e => rw [parseBytesValue, hdecode, hok]

/-- **What hexadecimal text is read as**: itself for an odd number of bytes, and otherwise half as
many bytes again. -/
theorem parseBytesValue_hexEncode (h : crates.Standard) (bytes : Bytes) :
    ∃ bytes', parseBytesValue crates (.string (crates.hexEncode bytes)) = .ok bytes' ∧
      (bytes' = bytes ↔ bytes = [] ∨ bytes.length % 2 = 1) := by
  rw [h.hexEncode]
  rcases Nat.mod_two_eq_zero_or_one bytes.length with heven | hodd
  · obtain ⟨bytes', hdecode, hlength⟩ := Base64.decode_hex_even heven
    refine ⟨bytes', parseBytesValue_base64 h (by rw [String.toList_ofList, hdecode]), ?_, ?_⟩
    · rintro rfl
      exact Or.inl (List.length_eq_zero_iff.mp (by omega))
    · rintro (rfl | hodd)
      · exact List.length_eq_zero_iff.mp hlength
      · omega
  · refine ⟨bytes, parseBytesValue_hex h ?_ ?_, fun _ => Or.inr hodd, fun _ => rfl⟩
    · rw [String.toList_ofList, Base64.decode_hex_odd hodd]
    · rw [String.toList_ofList, Hex.decode_encode]

/-- A field of bytes. -/
theorem encodeFieldValue_bytes (henum : field.enumRef = none) (htype : field.fieldType ∈ bytesTypes)
    {s : String} {bytes : Bytes} (h : parseBytesValue crates (.string s) = .ok bytes) :
    encodeFieldValue crates registry order (.string s) field = .ok (.binary bytes) := by
  have htarget : field.target = none := by
    rw [FieldSpec.target, if_neg]
    intro href
    simp only [bytesTypes, List.mem_cons, List.not_mem_nil, or_false] at htype
    rcases htype with htype | htype <;> rw [htype] at href <;> exact absurd href (by decide)
  have harray : field.fieldType ≠ "array" := by
    rintro harray
    rw [harray] at htype
    exact absurd htype (by decide)
  refine encodeFieldValue_of_type henum htarget JsonValue.noConfusion harray ?_
  rw [encodeValueForType_bytes htype, h]
  rfl

/-! ### Enums -/

/-- A label is posted back as the number it spells, or else as that of the enum. -/
theorem encodeFieldValue_enumLabel {enumRef : String} {enumMap : EnumMapping} {n : UInt64}
    {label : String} (href : field.enumRef = some enumRef)
    (hmap : registry.getEnum enumRef = some enumMap) (hdistinct : DistinctLabels enumMap)
    (hlabel : enumMap.lookup (Decimal.print n.toNat) = some label) :
    encodeFieldValue crates registry order (.string label) field =
      .ok (.integer ((Decimal.parseU64 label).getD n).toNat) := by
  rw [encodeFieldValue.eq_def]
  cases hspells : Decimal.parseU64 label with
  | some m =>
      have henum : encodeEnum registry order (.string label) field =
          some (.ok (.integer m.toNat)) := by
        rw [encodeEnum, href]
        simp only [parseJsonU64Opt, hspells]
      simp only [henum, Option.getD_some]
  | none =>
      have hkept : EnumKept enumMap (.string label) := by
        refine ⟨fun key label' heq _ hkey => ?_, fun m hm => ?_⟩
        · obtain rfl := JsonValue.string.inj heq
          obtain rfl := hdistinct _ _ _ hkey hlabel
          exact ⟨n, Decimal.parseU64_print n, hlabel⟩
        · rw [parseJsonU64Opt, hspells] at hm
          cases hm
      obtain ⟨m, label', henum, hlabel', hspelled⟩ := @encodeEnum_label registry order _ _ _ _ href hmap
        (Or.inl ⟨_, label, rfl, hlabel⟩) hkept
      have hm : m = n := by
        rcases hspelled with heq | hm
        · obtain rfl := JsonValue.string.inj heq
          exact print_injective (hdistinct _ _ _ hlabel' hlabel)
        · rw [parseJsonU64Opt, hspells] at hm
          cases hm
      simp only [henum, hm, Option.getD_none]

/-- A number is posted back as itself. -/
theorem encodeFieldValue_enumNumber {enumRef : String} (href : field.enumRef = some enumRef)
    (n : UInt64) : encodeFieldValue crates registry order (.number (.posInt n)) field =
      .ok (.integer n.toNat) := by
  have henum : encodeEnum registry order (.number (.posInt n)) field =
      some (.ok (.integer n.toNat)) := by
    rw [encodeEnum, href]
    rfl
  rw [encodeFieldValue.eq_def]
  simp only [henum]

/-! ### Fields -/

theorem target_of_simple {fieldType : String} (htype : field.fieldType = fieldType)
    (href : fieldType ≠ "ref") (hmap : fieldType ≠ "map") : field.target = none := by
  rw [FieldSpec.target, htype, if_neg]
  rintro (h | h)
  · exact href h
  · exact hmap h

/-- **Rendered scalars that are posted back.** The encoder makes the stored value again exactly
if the rendering is unambiguous. -/
theorem rendered_scalar_iff (hcrates : crates.Standard) (registry : Registry)
    (order order' : HashOrder) (options : RenderOptions) (field : FieldSpec)
    {value : MsgpackValue} (hshown : ShownScalar registry options field value) :
    encodeFieldValue crates registry order'
        (renderFieldValue crates options registry order value field) field = .ok value ↔
      Unambiguous registry options field value := by
  cases hshown with
  | nil =>
      rw [renderFieldValue_nil, encodeFieldValue.eq_def]
      exact ⟨fun _ => ⟨nofun, nofun⟩, fun _ => rfl⟩
  | text s henum htype =>
      have hrender : renderFieldValue crates options registry order (.string (some s)) field =
          .string s := by
        rw [renderFieldValue_eq (renderEnum_none henum _)
          (target_of_simple htype (by decide) (by decide)), htype]
        rfl
      rw [hrender]
      refine ⟨fun _ => ⟨nofun, nofun⟩, fun _ => ?_⟩
      refine encodeFieldValue_of_type henum (target_of_simple htype (by decide) (by decide))
        JsonValue.noConfusion (by rw [htype]; decide) ?_
      rw [htype]
      rfl
  | flag b henum htype =>
      have hrender : renderFieldValue crates options registry order (.boolean b) field =
          .bool b := by
        rw [renderFieldValue_eq (renderEnum_none henum _)
          (target_of_simple htype (by decide) (by decide)), htype]
        rfl
      rw [hrender]
      refine ⟨fun _ => ⟨nofun, nofun⟩, fun _ => ?_⟩
      refine encodeFieldValue_of_type henum (target_of_simple htype (by decide) (by decide))
        JsonValue.noConfusion (by rw [htype]; decide) ?_
      rw [htype]
      rfl
  | bytes bytes henum htype hfull =>
      have hrender : renderFieldValue crates options registry order (.binary bytes) field =
          renderBytes crates options (.binary bytes) := by
        have htypes := htype
        simp only [bytesTypes, List.mem_cons, List.not_mem_nil, or_false] at htypes
        rcases htypes with h | h
        · rw [renderFieldValue_eq (renderEnum_none henum _)
            (target_of_simple h (by decide) (by decide)), h]
          rfl
        · rw [renderFieldValue_eq (renderEnum_none henum _)
            (target_of_simple h (by decide) (by decide)), h]
          rfl
      rw [hrender, renderBytes]
      cases hoption : options.bytesRender with
      | lenOnly => exact absurd hoption hfull
      | base64 =>
          have hparse : parseBytesValue crates (.string (crates.base64Encode bytes)) =
              .ok bytes := by
            rw [hcrates.base64Encode]
            exact parseBytesValue_base64 hcrates
              (by rw [String.toList_ofList, Base64.decode_encode])
          refine ⟨fun _ => ⟨fun _ _ hhex => ?_, fun _ _ _ _ _ _ hn => (by cases hn)⟩, fun _ =>
            encodeFieldValue_bytes henum htype hparse⟩
          rw [hoption] at hhex
          cases hhex
      | hex =>
          obtain ⟨bytes', hparse, hiff⟩ := parseBytesValue_hexEncode hcrates bytes
          simp only [encodeFieldValue_bytes henum htype hparse]
          constructor
          · intro heq
            refine ⟨fun b hb _ => ?_, fun _ _ _ _ _ _ hn => (by cases hn)⟩
            obtain rfl := MsgpackValue.binary.inj hb
            exact hiff.mp (MsgpackValue.binary.inj (Except.ok.inj heq))
          · intro h
            rw [hiff.mpr (h.hex bytes rfl hoption)]
  | @enum enumRef enumMap n label href hmap hdistinct hlabel hfull =>
      rw [renderFieldValue, renderEnum_label options href hmap hlabel]
      simp only [renderLabel]
      cases hoption : options.enumRender with
      | both => exact absurd hoption hfull
      | number =>
          refine ⟨fun _ => ⟨fun _ hb => (by cases hb), fun _ _ _ _ _ _ _ _ hlabels => ?_⟩,
            fun _ => encodeFieldValue_enumNumber href n⟩
          rw [hoption] at hlabels
          cases hlabels
      | label =>
          simp only [encodeFieldValue_enumLabel href hmap hdistinct hlabel]
          constructor
          · intro heq
            have hn : (Decimal.parseU64 label).getD n = n := by
              have htoNat := MsgpackValue.integer.inj (Except.ok.inj heq)
              exact UInt64.toNat.inj (Int.ofNat.inj htoNat)
            refine ⟨fun _ hb => (by cases hb),
              fun enumRef' enumMap' n' label' href' hmap' hn' hlabel' _ m hm => ?_⟩
            obtain rfl := Option.some.inj (href.symm.trans href')
            obtain rfl := Option.some.inj (hmap.symm.trans hmap')
            obtain rfl : n = n' := UInt64.toNat.inj (Int.ofNat.inj (MsgpackValue.integer.inj hn'))
            obtain rfl := Option.some.inj (hlabel.symm.trans hlabel')
            rw [hm] at hn
            exact hn
          · intro h
            cases hspells : Decimal.parseU64 label with
            | none => rfl
            | some m =>
                rw [h.label enumRef enumMap n label href hmap rfl hlabel hoption m hspells]
                rfl

/-! ### Two bytes -/

/-- The crates, as far as texts of bytes go. -/
def textCrates : PayloadCrates where
  writeValue _ := .error "no writer"
  readValue _ := .error "no reader"
  base64Encode bytes := String.ofList (Base64.encode bytes)
  base64Decode s := (Base64.decode s.toList).elim (.error "Invalid symbol") .ok
  hexEncode bytes := String.ofList (Hex.encode bytes)
  hexDecode s := (Hex.decode s.toList).elim (.error "Invalid character") .ok
  rfc3339 _ := none
  widen _ := 0

theorem toOption_elim_ok {ε α : Type} (x : Option α) (e : ε) :
    (x.elim (.error e) .ok : Except ε α).toOption = x := by
  cases x <;> rfl

theorem standard_textCrates : textCrates.Standard where
  base64Encode _ := rfl
  base64Decode _ := toOption_elim_ok _ _
  hexEncode _ := rfl
  hexDecode _ := toOption_elim_ok _ _

/-- A field of bytes. -/
def blobField : FieldSpec where
  name := "blob"
  fieldType := "bytes"
  enumRef := none
  typeRef := none
  optional := false
  items := none

/-- The options of a reader who asks for hexadecimal digits. -/
def hexOptions : RenderOptions := { defaultOptions with bytesRender := .hex }

/-- One byte, posted back. -/
theorem rendered_scalar_iff_oneByte :
    encodeFieldValue textCrates .empty .sorted
      (renderFieldValue textCrates hexOptions .empty .sorted (.binary [171]) blobField)
      blobField = .ok (.binary [171]) := by
  refine (rendered_scalar_iff standard_textCrates .empty .sorted .sorted hexOptions blobField
    (.bytes [171] rfl (by decide) (by decide))).mpr ⟨fun bytes hbytes _ => ?_, nofun⟩
  obtain rfl := MsgpackValue.binary.inj hbytes
  exact Or.inr rfl

/-- **Two bytes become three**: their digits are read as base64. -/
theorem rendered_hex_misread :
    renderFieldValue textCrates hexOptions .empty .sorted (.binary [0, 0]) blobField =
        .string "0000" ∧
      encodeFieldValue textCrates .empty .sorted (.string "0000") blobField =
        .ok (.binary [0xd3, 0x4d, 0x34]) := by
  constructor
  · rw [renderFieldValue_eq (renderEnum_none rfl _) rfl]
    exact congrArg JsonValue.string (by decide)
  · exact encodeFieldValue_bytes rfl (by decide)
      (parseBytesValue_base64 standard_textCrates (by decide))

end Cxdb
