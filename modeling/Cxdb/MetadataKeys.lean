import Cxdb.LastWrite
import Cxdb.MetadataExtraction
import Cxdb.ProjectionFacts

/-!
# Metadata by either Kind of Key

The Rust client writes the tags of a payload as integers, the Go client as the strings that spell
them. The server reads both with `key_to_tag`, of which there is one in the store and one in the
projection, so a payload keeps its metadata when tags are written the other way.

The provenance that is extracted here is whole; the indexes read a part of it.

## Main results

* `extractContextMetadata_eq`: what the indexes read is part of what is extracted.
* `metadata_rekeyed`: neither the metadata nor the normalised tags of a payload depend on how
  its keys are written.
-/

open ByteFormat

namespace Cxdb

/-! ### The whole provenance -/

/-- All fields of the `Provenance` of `store.rs`. -/
structure SentProvenance extends Provenance where
  spanId : Option String
  correlationId : Option String
  onBehalfOfSource : Option String
  onBehalfOfEmail : Option String
  writerMethod : Option String
  writerSubject : Option String
  writerIssuer : Option String
  serviceVersion : Option String
  serviceInstanceId : Option String
  processPid : Option ℤ
  processOwner : Option String
  hostArch : Option String
  clientAddress : Option String
  clientPort : Option ℤ
  env : Option (HashMap String String)
  sdkName : Option String
  sdkVersion : Option String
  capturedAt : Option ℤ

/-- `ContextMetadata`, with the whole provenance. -/
structure SentMetadata where
  clientTag : Option String
  title : Option String
  labels : Option (List String)
  provenance : Option SentProvenance

def SentProvenance.default : SentProvenance where
  toProvenance := .default
  spanId := none
  correlationId := none
  onBehalfOfSource := none
  onBehalfOfEmail := none
  writerMethod := none
  writerSubject := none
  writerIssuer := none
  serviceVersion := none
  serviceInstanceId := none
  processPid := none
  processOwner := none
  hostArch := none
  clientAddress := none
  clientPort := none
  env := none
  sdkName := none
  sdkVersion := none
  capturedAt := none

def SentMetadata.default : SentMetadata where
  clientTag := none
  title := none
  labels := none
  provenance := none

def extractI64 : MsgpackValue → Option ℤ
  | .integer n => integerAsI64 n
  | _ => none

def extractStringMap : MsgpackValue → Option (HashMap String String)
  | .map entries =>
      let pairs := entries.filterMap fun entry => do
        let key ← extractString entry.1
        let val ← extractString entry.2
        return (key, val)
      if pairs = [] then none else some (LastWrite.insertAll Prod.fst Prod.snd ∅ pairs)
  | _ => none

/-- One pass of the loop of `extract_provenance`, field by field: a tag sets one field. -/
def SentProvenance.readEntry (prov : SentProvenance) (entry : MsgpackValue × MsgpackValue) :
    SentProvenance :=
  match keyToTag entry.1 with
  | none => prov
  | some key =>
      let string (tag : UInt64) (old : Option String) :=
        if key = tag then extractString entry.2 else old
      let number (tag : UInt64) (old : Option ℤ) :=
        if key = tag then extractI64 entry.2 else old
      { toProvenance := prov.toProvenance.readEntry entry
        spanId := string 11 prov.spanId
        correlationId := string 12 prov.correlationId
        onBehalfOfSource := string 21 prov.onBehalfOfSource
        onBehalfOfEmail := string 22 prov.onBehalfOfEmail
        writerMethod := string 30 prov.writerMethod
        writerSubject := string 31 prov.writerSubject
        writerIssuer := string 32 prov.writerIssuer
        serviceVersion := string 41 prov.serviceVersion
        serviceInstanceId := string 42 prov.serviceInstanceId
        processPid := number 43 prov.processPid
        processOwner := string 44 prov.processOwner
        hostArch := string 46 prov.hostArch
        clientAddress := string 50 prov.clientAddress
        clientPort := number 51 prov.clientPort
        env := if key = 60 then extractStringMap entry.2 else prov.env
        sdkName := string 70 prov.sdkName
        sdkVersion := string 71 prov.sdkVersion
        capturedAt := number 80 prov.capturedAt }

/-- `extract_provenance`. -/
def extractSentProvenance (entries : List (MsgpackValue × MsgpackValue)) : SentProvenance :=
  entries.foldl SentProvenance.readEntry .default

/-- One pass of the loop of `extract_context_metadata`. -/
def SentMetadata.readEntry (metadata : SentMetadata) (entry : MsgpackValue × MsgpackValue) :
    SentMetadata :=
  match keyToTag entry.1 with
  | none => metadata
  | some key =>
      if key = 1 then
        match entry.2 with
        | .string s => { metadata with clientTag := s }
        | _ => metadata
      else if key = 2 then
        match entry.2 with
        | .string s => { metadata with title := s }
        | _ => metadata
      else if key = 3 then
        match entry.2 with
        | .array items =>
            let labels := items.filterMap extractString
            if labels = [] then metadata else { metadata with labels := some labels }
        | _ => metadata
      else if key = 10 then
        match entry.2 with
        | .map entries => { metadata with provenance := some (extractSentProvenance entries) }
        | _ => metadata
      else metadata

/-- `extract_context_metadata` on the value that is read from the payload. -/
def extractSentMetadata (value : MsgpackValue) : Option SentMetadata :=
  match value with
  | .map entries =>
    match entries.find? fun entry => keyToTag entry.1 = some 30 with
    | some (_, .map fields) =>
        let metadata := fields.foldl SentMetadata.readEntry .default
        if metadata.clientTag.isSome ∨ metadata.title.isSome ∨ metadata.labels.isSome ∨
            metadata.provenance.isSome then
          some metadata
        else none
    | _ => none
  | _ => none

/-- The part that the indexes read. -/
def SentMetadata.toContextMetadata (m : SentMetadata) : ContextMetadata where
  clientTag := m.clientTag
  title := m.title
  labels := m.labels
  provenance := m.provenance.map (·.toProvenance)

/-! ### What the indexes read -/

theorem toProvenance_readEntry (prov : SentProvenance) (entry : MsgpackValue × MsgpackValue) :
    (prov.readEntry entry).toProvenance = prov.toProvenance.readEntry entry := by
  rw [SentProvenance.readEntry]
  cases hkey : keyToTag entry.1 with
  | none => rw [Provenance.readEntry, hkey]
  | some key => rfl

theorem toProvenance_extract (entries : List (MsgpackValue × MsgpackValue)) :
    (extractSentProvenance entries).toProvenance = extractProvenance entries :=
  (List.foldl_hom SentProvenance.toProvenance fun prov entry =>
    (toProvenance_readEntry prov entry).symm).symm

theorem toContextMetadata_readEntry (m : SentMetadata) (entry : MsgpackValue × MsgpackValue) :
    (m.readEntry entry).toContextMetadata = m.toContextMetadata.readEntry entry := by
  obtain ⟨k, v⟩ := entry
  rw [SentMetadata.readEntry, ContextMetadata.readEntry]
  cases keyToTag k with
  | none => rfl
  | some key =>
      dsimp only
      split_ifs
      · cases v <;> rfl
      · cases v <;> rfl
      · cases v with
        | array items =>
            dsimp only
            split_ifs <;> rfl
        | _ => rfl
      · cases v with
        | map entries =>
            simp only [SentMetadata.toContextMetadata, Option.map_some, toProvenance_extract]
        | _ => rfl
      · rfl

/-- **What the indexes read** of a payload is part of what is extracted from it. -/
theorem extractContextMetadata_eq (readValue : MsgpackReader) (payload : Bytes) :
    extractContextMetadata readValue payload =
      ((readValue payload).bind extractSentMetadata).map SentMetadata.toContextMetadata := by
  have hfold : ∀ fields : List (MsgpackValue × MsgpackValue),
      fields.foldl ContextMetadata.readEntry .default =
        (fields.foldl SentMetadata.readEntry .default).toContextMetadata := by
    intro fields
    rw [show ContextMetadata.default = SentMetadata.default.toContextMetadata from rfl]
    exact List.foldl_hom SentMetadata.toContextMetadata fun m entry =>
      (toContextMetadata_readEntry m entry).symm
  rw [extractContextMetadata]
  cases readValue payload with
  | none => rfl
  | some value =>
      cases value with
      | map entries =>
          rw [Option.bind_some, extractSentMetadata]
          dsimp only
          generalize entries.find? _ = found
          rcases found with _ | ⟨k, v⟩
          · rfl
          cases v with
          | map fields =>
              dsimp only
              rw [hfold]
              simp only [SentMetadata.toContextMetadata, Option.isSome_map]
              split_ifs <;> rfl
          | _ => rfl
      | _ => rfl

/-! ### Keys written the other way -/

/-- Two keys are the same, or a number and the string that spells it. -/
inductive SameKey : MsgpackValue → MsgpackValue → Prop
  | refl (k : MsgpackValue) : SameKey k k
  | spelled (n : UInt64) : SameKey (.integer n.toNat) (.string (some (Decimal.print n.toNat)))
  | read (n : UInt64) : SameKey (.string (some (Decimal.print n.toNat))) (.integer n.toNat)

/-- Some keys of a map are written the other way; its values are related. -/
def Rekeyed (values : MsgpackValue → MsgpackValue → MsgpackValue → Prop)
    (entries entries' : List (MsgpackValue × MsgpackValue)) : Prop :=
  List.Forall₂ (fun e e' => SameKey e.1 e'.1 ∧ values e.1 e.2 e'.2) entries entries'

/-- The values of a map stay as they are, except that `below` may relate what is under a tag. -/
def Beneath (tag : UInt64) (below : MsgpackValue → MsgpackValue → Prop)
    (k v v' : MsgpackValue) : Prop :=
  v = v' ∨ keyToTag k = some tag ∧ below v v'

/-- A provenance with keys written the other way. -/
def RekeyedProvenance (v v' : MsgpackValue) : Prop :=
  ∃ entries entries', v = .map entries ∧ v' = .map entries' ∧
    Rekeyed (fun _ => Eq) entries entries'

/-- Metadata with keys written the other way, in its provenance too. -/
def RekeyedMetadata (v v' : MsgpackValue) : Prop :=
  ∃ entries entries', v = .map entries ∧ v' = .map entries' ∧
    Rekeyed (Beneath 10 RekeyedProvenance) entries entries'

/-- A payload with keys written the other way, in its metadata too. -/
def RekeyedPayload (v v' : MsgpackValue) : Prop :=
  v = v' ∨ ∃ entries entries', v = .map entries ∧ v' = .map entries' ∧
    Rekeyed (Beneath 30 RekeyedMetadata) entries entries'

theorem parseTag_eq (s : String) : parseTag s = Decimal.parseU64 s := by
  have hparse : ∀ ds, parseU64 ds =
      (if ds ≠ [] ∧ ds.all Char.isDigit = true ∧ F64.digitsValue ds < 2 ^ 64 then
        some (F64.digitsValue ds) else none).map UInt64.ofNat := by
    intro ds
    rw [parseU64]
    split_ifs <;> rfl
  rw [parseTag, Decimal.parseU64, Decimal.parseUint]
  rcases s.toList with _ | ⟨c, rest⟩
  · exact hparse []
  · by_cases hc : c = '+'
    · subst hc
      exact hparse rest
    · simp [hc, hparse]

/-- **A key has the same tag**, however it is written, for the store and for the projection. -/
theorem SameKey.keyToTag {k k' : MsgpackValue} (h : SameKey k k') :
    keyToTag k = keyToTag k' ∧ Projection.keyToTag k = Projection.keyToTag k' := by
  have hinteger : ∀ n : UInt64, integerAsU64 n.toNat = some n := integerAsU64_toNat
  have hspelled : ∀ n : UInt64, Decimal.parseU64 (Decimal.print n.toNat) = some n :=
    Decimal.parseU64_print
  cases h with
  | refl => exact ⟨rfl, rfl⟩
  | spelled n | read n =>
      simp [Cxdb.keyToTag, Projection.keyToTag, parseTag_eq, hinteger, hspelled]

/-! ### What is extracted -/

/-- A loop that reads the tags of its entries ends the same way. -/
theorem Rekeyed.foldl_eq {σ : Type} {values : MsgpackValue → MsgpackValue → MsgpackValue → Prop}
    {entries entries' : List (MsgpackValue × MsgpackValue)} (h : Rekeyed values entries entries')
    {read : σ → MsgpackValue × MsgpackValue → σ}
    (hread : ∀ s k k' v v', SameKey k k' → values k v v' → read s (k, v) = read s (k', v'))
    (s : σ) : entries.foldl read s = entries'.foldl read s := by
  induction h generalizing s with
  | nil => rfl
  | cons hentry _ ih =>
      rw [List.foldl_cons, List.foldl_cons, hread s _ _ _ _ hentry.1 hentry.2]
      exact ih _

theorem SameKey.readProvenance {k k' : MsgpackValue} (h : SameKey k k') (prov : SentProvenance)
    (v : MsgpackValue) : prov.readEntry (k, v) = prov.readEntry (k', v) := by
  have hindexed : prov.toProvenance.readEntry (k, v) = prov.toProvenance.readEntry (k', v) := by
    simp only [Provenance.readEntry, h.keyToTag.1]
  simp only [SentProvenance.readEntry, h.keyToTag.1, hindexed]

theorem extractSentProvenance_rekeyed {entries entries' : List (MsgpackValue × MsgpackValue)}
    (h : Rekeyed (fun _ => Eq) entries entries') :
    extractSentProvenance entries = extractSentProvenance entries' := by
  refine h.foldl_eq (fun prov k k' v v' hkey hv => ?_) _
  subst hv
  exact hkey.readProvenance prov v

theorem readMetadata_rekeyed (m : SentMetadata) {k k' v v' : MsgpackValue} (hkey : SameKey k k')
    (hv : Beneath 10 RekeyedProvenance k v v') : m.readEntry (k, v) = m.readEntry (k', v') := by
  rw [SentMetadata.readEntry, SentMetadata.readEntry, ← hkey.keyToTag.1]
  rcases hv with rfl | ⟨htag, entries, entries', rfl, rfl, hentries⟩
  · rfl
  · simp only [htag, extractSentProvenance_rekeyed hentries]

/-- The first entry under a tag corresponds to the first one. -/
theorem Rekeyed.find?_tag {values : MsgpackValue → MsgpackValue → MsgpackValue → Prop}
    {entries entries' : List (MsgpackValue × MsgpackValue)} (h : Rekeyed values entries entries')
    (tag : UInt64) :
    Option.Rel (fun e e' => keyToTag e.1 = some tag ∧ values e.1 e.2 e'.2)
      (entries.find? fun e => keyToTag e.1 = some tag)
      (entries'.find? fun e => keyToTag e.1 = some tag) := by
  induction h with
  | nil => exact .none
  | @cons e e' _ _ hentry _ ih =>
      rw [List.find?_cons, List.find?_cons, ← hentry.1.keyToTag.1]
      by_cases htag : keyToTag e.1 = some tag
      · simp only [htag, decide_true]
        exact .some ⟨htag, hentry.2⟩
      · simp only [htag, decide_false]
        exact ih

/-- **The metadata of a payload** does not depend on how its keys are written. -/
theorem extractSentMetadata_rekeyed {v v' : MsgpackValue} (h : RekeyedPayload v v') :
    extractSentMetadata v = extractSentMetadata v' := by
  rcases h with rfl | ⟨entries, entries', rfl, rfl, hentries⟩
  · rfl
  rw [extractSentMetadata, extractSentMetadata]
  have hfind := hentries.find?_tag 30
  dsimp only
  generalize entries.find? _ = found at hfind ⊢
  generalize entries'.find? _ = found' at hfind ⊢
  cases hfind with
  | none => rfl
  | some hentry =>
      rename_i e e'
      obtain ⟨k, v⟩ := e
      obtain ⟨k', v'⟩ := e'
      obtain ⟨-, rfl | ⟨-, fields, fields', rfl, rfl, hfields⟩⟩ := hentry
      · cases v <;> rfl
      · have hsame := hfields.foldl_eq (fun m k k' v v' hkey hv => readMetadata_rekeyed m hkey hv)
          SentMetadata.default
        simp only [hsame]

/-! ### Normalised tags -/

/-- **The normalised tags** of two maps whose keys are written otherwise have related values. -/
theorem Rekeyed.lookup_tagMap {values : MsgpackValue → MsgpackValue → MsgpackValue → Prop}
    {ρ : MsgpackValue → MsgpackValue → Prop} (hvalues : ∀ k v v', values k v v' → ρ v v')
    {entries entries' : List (MsgpackValue × MsgpackValue)} (h : Rekeyed values entries entries')
    (tag : UInt64) :
    Option.Rel ρ ((Projection.tagMap entries).lookup tag)
      ((Projection.tagMap entries').lookup tag) := by
  have hinsert : ∀ m m' : HashMap UInt64 MsgpackValue,
      (∀ tag, Option.Rel ρ (m.lookup tag) (m'.lookup tag)) → ∀ tag,
        Option.Rel ρ
          ((LastWrite.insertAll Prod.fst Prod.snd m
            (entries.filterMap Projection.taggedEntry)).lookup tag)
          ((LastWrite.insertAll Prod.fst Prod.snd m'
            (entries'.filterMap Projection.taggedEntry)).lookup tag) := by
    induction h with
    | nil => exact fun m m' hm => hm
    | @cons e e' _ _ hentry _ ih =>
        intro m m' hm
        simp only [List.filterMap_cons, Projection.taggedEntry, ← hentry.1.keyToTag.2]
        cases Projection.keyToTag e.1 with
        | none => exact ih m m' hm
        | some t =>
            refine ih _ _ fun tag => ?_
            rw [LastWrite.lookup_insert, LastWrite.lookup_insert]
            split
            · exact .some (hvalues _ _ _ hentry.2)
            · exact hm tag
  exact hinsert ∅ ∅ (fun tag => by rw [Finmap.lookup_empty]; exact .none) tag

/-- With the same values, they are the same. -/
theorem normalizeTags_rekeyed {entries entries' : List (MsgpackValue × MsgpackValue)}
    (h : Rekeyed (fun _ => Eq) entries entries') :
    Projection.normalizeTags (.map entries) = Projection.normalizeTags (.map entries') := by
  rw [Projection.normalizeTags_map, Projection.normalizeTags_map]
  refine congrArg Except.ok (Finmap.ext_lookup fun tag => ?_)
  have hrel := h.lookup_tagMap (ρ := Eq) (fun _ _ _ => id) tag
  generalize (Projection.tagMap entries).lookup tag = x at hrel ⊢
  generalize (Projection.tagMap entries').lookup tag = x' at hrel ⊢
  cases hrel with
  | none => rfl
  | some heq => rw [heq]

/-- **The representation of keys is ignored**: payloads that differ in it have the same metadata,
as it is extracted and as it is indexed, and maps that differ in it the same normalised tags. -/
theorem metadata_rekeyed :
    (∀ (readValue : MsgpackReader) (payload payload' : Bytes) (v v' : MsgpackValue),
      readValue payload = some v → readValue payload' = some v' → RekeyedPayload v v' →
        extractSentMetadata v = extractSentMetadata v' ∧
          extractContextMetadata readValue payload = extractContextMetadata readValue payload') ∧
    ∀ entries entries' : List (MsgpackValue × MsgpackValue),
      Rekeyed (fun _ => Eq) entries entries' →
        Projection.normalizeTags (.map entries) = Projection.normalizeTags (.map entries') := by
  refine ⟨fun readValue payload payload' v v' hv hv' h => ?_, fun _ _ => normalizeTags_rekeyed⟩
  have hsame := extractSentMetadata_rekeyed h
  refine ⟨hsame, ?_⟩
  rw [extractContextMetadata_eq, extractContextMetadata_eq, hv, hv', Option.bind_some,
    Option.bind_some, hsame]

/-- A payload with the client tag and the parent of a context, its keys written by `key`. -/
def spawnedPayload (key : UInt64 → MsgpackValue) : MsgpackValue :=
  .map [(key 30, .map [(key 1, .string (some "a")), (key 10, .map [(key 1, .integer 7)])])]

/-- The two ways to write a key. -/
def integerKey (n : UInt64) : MsgpackValue := .integer n.toNat

def stringKey (n : UInt64) : MsgpackValue := .string (some (Decimal.print n.toNat))

theorem metadata_rekeyed_spawned :
    extractSentMetadata (spawnedPayload integerKey) =
      extractSentMetadata (spawnedPayload stringKey) := by
  have hprovenance : Beneath 10 RekeyedProvenance (integerKey 10)
      (.map [(integerKey 1, .integer 7)]) (.map [(stringKey 1, .integer 7)]) :=
    Or.inr ⟨by decide, _, _, rfl, rfl, .cons ⟨.spelled 1, rfl⟩ .nil⟩
  have hmetadata : RekeyedPayload (spawnedPayload integerKey) (spawnedPayload stringKey) :=
    Or.inr ⟨_, _, rfl, rfl, .cons ⟨.spelled 30, Or.inr ⟨by decide, _, _, rfl, rfl,
      .cons ⟨.spelled 1, Or.inl rfl⟩ (.cons ⟨.spelled 10, hprovenance⟩ .nil)⟩⟩ .nil⟩
  exact (metadata_rekeyed.1 (fun payload => if payload = [] then some (spawnedPayload integerKey)
    else some (spawnedPayload stringKey)) [] [0] _ _ rfl rfl hmetadata).1

end Cxdb
