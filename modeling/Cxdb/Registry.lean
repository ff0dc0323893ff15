import Cxdb.DataDir
import Cxdb.Decimal
import Cxdb.FailingLoop
import Cxdb.IterationOrder
import Cxdb.JsonValue

/-!
# The Type Registry

`registry/mod.rs`: bundles of type descriptors and enums are merged into the registry in
place, checking them on the way, and are kept as files that are merged again when the server
starts. Reading the JSON of a bundle is left to `serde_json`, which is a parameter here; the
order in which the hash maps of a call are iterated is another one.

A merge fails at the first entry that does not fit, and leaves behind what it has merged so
far.
-/

open ByteFormat FailingLoop IterationOrder

namespace Cxdb

/-! ### Bundles -/

/-- The numbers and labels of an enum. -/
abbrev EnumMapping := HashMap String String

structure RendererSpec where
  esmUrl : String
  component : Option String
  integrity : Option String
  deriving DecidableEq

/-- A field of a type in a bundle. -/
structure FieldDef where
  name : String
  fieldType : String
  enumRef : Option String
  typeRef : Option String
  optional : Option Bool
  items : Option JsonValue

structure TypeVersion where
  fields : HashMap String FieldDef
  renderer : Option RendererSpec

structure TypeEntry where
  versions : HashMap String TypeVersion

structure RegistryBundle where
  registryVersion : UInt32
  bundleId : String
  types : HashMap String TypeEntry
  enums : HashMap String EnumMapping

/-- `serde_json::from_slice` for a bundle; an error has its text. -/
abbrev BundleReader := Bytes → Except String RegistryBundle

/-! ### The registry -/

/-- The items of an array: values of a simple type, or references to a type. -/
inductive ItemsSpec where
  | simple (itemType : String)
  | ref (typeRef : String)
  deriving DecidableEq

structure FieldSpec where
  name : String
  fieldType : String
  enumRef : Option String
  typeRef : Option String
  optional : Bool
  items : Option ItemsSpec
  deriving DecidableEq

structure TypeVersionSpec where
  version : UInt32
  fields : HashMap UInt64 FieldSpec
  renderer : Option RendererSpec
  deriving DecidableEq

structure FieldSignature where
  fieldType : String
  enumRef : Option String
  deriving DecidableEq

structure TypeSpec where
  versions : HashMap UInt32 TypeVersionSpec
  tagSchema : HashMap UInt64 FieldSignature
  deriving DecidableEq

/-- The registry; its directory is a state of its own. -/
structure Registry where
  bundles : HashMap String Bytes
  types : HashMap String TypeSpec
  enums : HashMap String EnumMapping
  lastBundleId : Option String
  deriving DecidableEq

inductive PutOutcome where
  | created
  | alreadyExists
  deriving DecidableEq

/-- The files of the registry's directory, by their names. -/
abbrev BundleDir := HashMap String Bytes

/-- The type that `or_insert_with` makes. -/
def TypeSpec.empty : TypeSpec where
  versions := ∅
  tagSchema := ∅

/-- The registry of an empty directory. -/
def Registry.empty : Registry where
  bundles := ∅
  types := ∅
  enums := ∅
  lastBundleId := none

/-! ### Reading versions and fields -/

def parseVersion (version : String) : Except StoreError UInt32 :=
  match Decimal.parseU32 version with
  | some v => .ok v
  | none => .error (.invalidInput "invalid type version")

/-- The items of a field: a simple type, or an object with a type or a reference. -/
def itemsSpec : Option JsonValue → Option ItemsSpec
  | some (.string s) => some (.simple s)
  | some (.object fields) =>
      match fields.lookup "type", fields.lookup "ref" with
      | some (.string t), r =>
          if t = "ref" then
            match r with
            | some (.string r) => some (.ref r)
            | _ => none
          else some (.simple t)
      | _, some (.string r) => some (.ref r)
      | _, _ => none
  | _ => none

/-- What the registry keeps of a field. -/
def FieldDef.spec (d : FieldDef) : FieldSpec where
  name := d.name
  fieldType := d.fieldType
  enumRef := d.enumRef
  typeRef := d.typeRef
  optional := d.optional.getD false
  items := itemsSpec d.items

/-- The loop of `normalize_version` over the fields. -/
def normalizeFields : List (String × FieldDef) → HashMap UInt64 FieldSpec →
    Except StoreError (HashMap UInt64 FieldSpec)
  | [], fields => .ok fields
  | (tagStr, fieldDef) :: rest, fields =>
      match Decimal.parseU64 tagStr with
      | none => .error (.invalidInput "invalid field tag")
      | some tag => normalizeFields rest (fields.insert tag fieldDef.spec)

variable (o : HashOrder)

/-- `normalize_version`; `place` is where the version stands in its bundle. -/
def normalizeVersion (place : List String) (version : UInt32) (d : TypeVersion) :
    Except StoreError TypeVersionSpec :=
  match normalizeFields (entriesIn d.fields (o.strings place d.fields.keys)) ∅ with
  | .error e => .error e
  | .ok fields => .ok { version, fields, renderer := d.renderer }

/-! ### Merging a bundle -/

/-- A pass of the loop over the enums. -/
def mergeEnum (entry : String × EnumMapping) (enums : HashMap String EnumMapping) :
    Except StoreError Unit × HashMap String EnumMapping :=
  enter (.invalidInput ("enum " ++ entry.1 ++ " already exists with different mapping"))
    entry.1 entry.2 enums

def FieldSpec.signature (f : FieldSpec) : FieldSignature where
  fieldType := f.fieldType
  enumRef := f.enumRef

/-- A pass of the loop over the tags of a new version. -/
def mergeTag (typeId : String) (entry : UInt64 × FieldSpec)
    (tagSchema : HashMap UInt64 FieldSignature) :
    Except StoreError Unit × HashMap UInt64 FieldSignature :=
  enter (.invalidInput
      ("tag reuse conflict for type " ++ typeId ++ " tag " ++ Decimal.print entry.1.toNat))
    entry.1 entry.2.signature tagSchema

/-- A version that the type does not have yet. -/
def mergeNewVersion (typeId : String) (place : List String) (normalized : TypeVersionSpec)
    (spec : TypeSpec) : Except StoreError Unit × TypeSpec :=
  let tags := entriesIn normalized.fields (o.numbers place normalized.fields.keys)
  match run (mergeTag typeId) tags spec.tagSchema with
  | (.error e, tagSchema) => (.error e, { spec with tagSchema })
  | (.ok (), tagSchema) =>
      (.ok (), { versions := spec.versions.insert normalized.version normalized, tagSchema })

def TypeVersionSpec.withRenderer (n : TypeVersionSpec) (renderer : Option RendererSpec) :
    TypeVersionSpec :=
  { n with renderer }

def TypeSpec.setVersion (spec : TypeSpec) (version : UInt32) (n : TypeVersionSpec) : TypeSpec :=
  { spec with versions := spec.versions.insert version n }

/-- A pass of the loop over the versions of a type. -/
def mergeVersion (typeId : String) (entry : String × TypeVersion) (spec : TypeSpec) :
    Except StoreError Unit × TypeSpec :=
  let place := ["types", typeId, entry.1]
  match parseVersion entry.1 with
  | .error e => (.error e, spec)
  | .ok version =>
      match normalizeVersion o place version entry.2 with
      | .error e => (.error e, spec)
      | .ok normalized =>
          match spec.versions.lookup version with
          | some existing =>
              if existing.fields ≠ normalized.fields then
                (.error (.invalidInput ("type " ++ typeId ++ " version " ++
                  Decimal.print version.toNat ++ " differs from existing")), spec)
              else if normalized.renderer.isSome ∧ existing.renderer.isNone then
                (.ok (), spec.setVersion version (existing.withRenderer normalized.renderer))
              else (.ok (), spec)
          | none => mergeNewVersion o typeId place normalized spec

/-- A pass of the loop over the types. -/
def mergeType (entry : String × TypeEntry) (types : HashMap String TypeSpec) :
    Except StoreError Unit × HashMap String TypeSpec :=
  let spec := (types.lookup entry.1).getD TypeSpec.empty
  let versions := entriesIn entry.2.versions
    (o.strings ["types", entry.1] entry.2.versions.keys)
  let (x, spec) := run (mergeVersion o entry.1) versions spec
  (x, types.insert entry.1 spec)

/-- The versions of a type, as a `BTreeMap` is iterated. -/
def TypeSpec.iter (spec : TypeSpec) : List (UInt32 × TypeVersionSpec) :=
  entriesIn spec.versions (sorted (· ≤ ·) spec.versions.keys)

/-- The fields whose enums are missing, as the loops after the merge meet them. -/
def missingEnums (types : HashMap String TypeSpec) (enums : HashMap String EnumMapping) :
    List (String × UInt32 × UInt64 × String) :=
  (entriesIn types (o.strings ["registry"] types.keys)).flatMap fun (typeId, spec) =>
    spec.iter.flatMap fun (version, versionSpec) =>
      let place := ["registry", typeId, Decimal.print version.toNat]
      (entriesIn versionSpec.fields (o.numbers place versionSpec.fields.keys)).filterMap
        fun (tag, field) => match field.enumRef with
          | some enumRef =>
              if enumRef ∈ enums then none else some (typeId, version, tag, enumRef)
          | none => none

/-- The check of the enum references. -/
def checkEnums (types : HashMap String TypeSpec) (enums : HashMap String EnumMapping) :
    Except StoreError Unit :=
  match missingEnums o types enums with
  | [] => .ok ()
  | (typeId, version, tag, enumRef) :: _ =>
      .error (.invalidInput ("missing enum " ++ enumRef ++ " for type " ++ typeId ++
        " version " ++ Decimal.print version.toNat ++ " tag " ++ Decimal.print tag.toNat))

/-- `ingest_bundle`. Its state also changes when it fails. -/
def Registry.ingestBundle (r : Registry) (bundle : RegistryBundle) :
    Except StoreError Unit × Registry :=
  if bundle.registryVersion = 0 then
    (.error (.invalidInput "registry_version must be > 0"), r)
  else
    let enums := entriesIn bundle.enums (o.strings ["enums"] bundle.enums.keys)
    match run mergeEnum enums r.enums with
    | (.error e, enums) => (.error e, { r with enums })
    | (.ok (), enums) =>
        let types := entriesIn bundle.types (o.strings ["types"] bundle.types.keys)
        match run (mergeType o) types r.types with
        | (.error e, types) => (.error e, { r with enums, types })
        | (.ok (), types) => (checkEnums o types enums, { r with enums, types })

/-! ### Files -/

def bundleFilename (bundleId : String) : String :=
  let safe := bundleId.toList.map fun c => if c = '/' ∨ c = ':' ∨ c = '#' then '_' else c
  "bundle_" ++ String.ofList safe ++ ".json"

/-- `Path::extension` of a file name: what follows the last dot, if anything precedes it. -/
def extension (name : String) : Option String :=
  match name.toList.reverse.span (· ≠ '.') with
  | (_, []) => none
  | (_, [_]) => none
  | (ext, _ :: _ :: _) => some (String.ofList ext.reverse)

/-- How `fs::write` can fail: before it has the file, or when it has written a part. -/
inductive FileFault where
  | unopened
  | cut (bytes : ℕ)
  deriving DecidableEq

/-- `fs::write`. -/
def fsWrite (files : BundleDir) (name : String) (raw : Bytes) :
    Option FileFault → Except StoreError Unit × BundleDir
  | none => (.ok (), files.insert name raw)
  | some .unopened => (.error (.io .other), files)
  | some (.cut bytes) => (.error (.io .other), files.insert name (raw.take bytes))

/-! ### The calls -/

variable (readBundle : BundleReader)

/-- `put_bundle`. -/
def Registry.putBundle (r : Registry) (files : BundleDir) (bundleId : String) (raw : Bytes)
    (fault : Option FileFault) : Except StoreError PutOutcome × Registry × BundleDir :=
  match r.bundles.lookup bundleId with
  | some existing =>
      if existing = raw then (.ok .alreadyExists, r, files)
      else (.error (.invalidInput "bundle_id already exists with different content"), r, files)
  | none =>
      match readBundle raw with
      | .error e => (.error (.invalidInput ("invalid json: " ++ e)), r, files)
      | .ok bundle =>
          if bundle.bundleId ≠ bundleId then
            (.error (.invalidInput "bundle_id does not match path"), r, files)
          else
            match r.ingestBundle o bundle with
            | (.error e, r) => (.error e, r, files)
            | (.ok (), r) =>
                match fsWrite files (bundleFilename bundleId) raw fault with
                | (.error e, files) => (.error e, r, files)
                | (.ok (), files) =>
                    (.ok .created,
                      { r with
                        bundles := r.bundles.insert bundleId raw
                        lastBundleId := some bundleId },
                      files)

/-- A pass of the loop of `open` over the files of the directory. -/
def Registry.loadFile (orders : String → HashOrder) (entry : String × Bytes) (r : Registry) :
    Except StoreError Unit × Registry :=
  if extension entry.1 ≠ some "json" then (.ok (), r)
  else
    match readBundle entry.2 with
    | .error e => (.error (.corrupt ("invalid bundle json: " ++ e)), r)
    | .ok bundle =>
        match r.ingestBundle (orders entry.1) bundle with
        | (.error e, r) => (.error e, r)
        | (.ok (), r) =>
            (.ok (),
              { r with
                bundles := r.bundles.insert bundle.bundleId entry.2
                lastBundleId := some bundle.bundleId })

/-- `Registry::open` on the files of a directory, in the order in which `read_dir` has them. -/
def Registry.open (orders : String → HashOrder) (entries : List (String × Bytes)) :
    Except StoreError Registry :=
  match run (Registry.loadFile readBundle orders) entries Registry.empty with
  | (.error e, _) => .error e
  | (.ok (), r) => .ok r

/-- `get_type_version`. -/
def Registry.getTypeVersion (r : Registry) (typeId : String) (version : UInt32) :
    Option TypeVersionSpec :=
  (r.types.lookup typeId).bind fun spec => spec.versions.lookup version

/-- The version with the greatest number. -/
def TypeSpec.latest (spec : TypeSpec) : Option TypeVersionSpec :=
  spec.iter.getLast?.map Prod.snd

/-- `get_latest_type_version`. -/
def Registry.getLatestTypeVersion (r : Registry) (typeId : String) : Option TypeVersionSpec :=
  (r.types.lookup typeId).bind TypeSpec.latest

/-- `get_enum`. -/
def Registry.getEnum (r : Registry) (enumId : String) : Option EnumMapping :=
  r.enums.lookup enumId

/-- The renderer of a type, which is that of its latest version. -/
def latestRenderer (entry : String × TypeSpec) : Option (String × RendererSpec) :=
  (entry.2.latest.bind TypeVersionSpec.renderer).map (entry.1, ·)

/-- `get_all_renderers`. -/
def Registry.getAllRenderers (r : Registry) : HashMap String RendererSpec :=
  LastWrite.insertAll Prod.fst Prod.snd ∅
    ((entriesIn r.types (o.strings ["renderers"] r.types.keys)).filterMap latestRenderer)

end Cxdb
