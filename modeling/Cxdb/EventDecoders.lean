import Cxdb.EventPayloads
import Cxdb.ServerEvents

/-!
# Typed Event Decoders

`clients/go/events.go` and `clients/rust/src/events.rs`: the members of a JSON object are read into
the fields of a payload, and the payload becomes an event. Go takes a key for a field when it is
the name of the field but for the case of its letters, and reads one member after the other into
the field; Rust knows the name itself only, and refuses it twice.

## Main results

* `decoders_agree_iff`: when the two clients make the same of an object.
* `delivered_iff`: the events of the server that both clients read as they are.
* `event_decoders`: the two together.
-/

namespace Cxdb

namespace Sse

/-! ### Events -/

@[ext] structure ContextCreatedEvent where
  contextId : UInt64
  sessionId : String
  clientTag : String
  createdAt : ℤ
  deriving DecidableEq

@[ext] structure ContextMetadataUpdatedEvent where
  contextId : UInt64
  hasProvenance : Bool
  clientTag : String
  title : String
  labels : List String
  deriving DecidableEq

@[ext] structure TurnAppendedEvent where
  contextId : UInt64
  turnId : UInt64
  parentTurnId : UInt64
  depth : UInt32
  declaredTypeId : String
  declaredTypeVersion : UInt32
  hasDeclaredTypeId : Bool
  hasDeclaredTypeVer : Bool
  deriving DecidableEq

@[ext] structure ClientConnectedEvent where
  sessionId : String
  clientTag : String
  deriving DecidableEq

@[ext] structure ClientDisconnectedEvent where
  sessionId : String
  clientTag : String
  contexts : List String
  deriving DecidableEq

/-- The events that the clients decode. -/
inductive ClientEvent where
  | contextCreated (ev : ContextCreatedEvent)
  | contextMetadataUpdated (ev : ContextMetadataUpdatedEvent)
  | turnAppended (ev : TurnAppendedEvent)
  | clientConnected (ev : ClientConnectedEvent)
  | clientDisconnected (ev : ClientDisconnectedEvent)
  deriving DecidableEq

/-- The decoders. -/
inductive EventKind where
  | contextCreated
  | contextMetadataUpdated
  | turnAppended
  | clientConnected
  | clientDisconnected
  deriving DecidableEq

/-- The fields of a payload. -/
def EventKind.fields : EventKind → List (String × FieldType)
  | .contextCreated =>
      [("context_id", .uint64), ("session_id", .string), ("client_tag", .string),
        ("created_at", .int64)]
  | .contextMetadataUpdated =>
      [("context_id", .uint64), ("has_provenance", .bool), ("client_tag", .string),
        ("title", .string), ("labels", .strings)]
  | .turnAppended =>
      [("context_id", .uint64), ("turn_id", .uint64), ("parent_turn_id", .uint64),
        ("depth", .uint32), ("declared_type_id", .typeName), ("declared_type_version", .version)]
  | .clientConnected => [("session_id", .string), ("client_tag", .string)]
  | .clientDisconnected =>
      [("session_id", .string), ("client_tag", .string), ("contexts", .strings)]

/-! ### Decoders -/

/-- What is read of the fields, one by one. -/
abbrev FieldReader := (t : FieldType) → String → Option t.Carrier

section Decoders

variable (read : FieldReader)

def decodeContextCreated : Option ContextCreatedEvent := do
  let contextId ← read .uint64 "context_id"
  let sessionId ← read .string "session_id"
  let clientTag ← read .string "client_tag"
  let createdAt ← read .int64 "created_at"
  return { contextId, sessionId, clientTag, createdAt }

def decodeContextMetadataUpdated : Option ContextMetadataUpdatedEvent := do
  let contextId ← read .uint64 "context_id"
  let hasProvenance ← read .bool "has_provenance"
  let clientTag ← read .string "client_tag"
  let title ← read .string "title"
  let labels ← read .strings "labels"
  return { contextId, hasProvenance, clientTag, title, labels }

def decodeTurnAppended : Option TurnAppendedEvent := do
  let contextId ← read .uint64 "context_id"
  let turnId ← read .uint64 "turn_id"
  let parentTurnId ← read .uint64 "parent_turn_id"
  let depth ← read .uint32 "depth"
  let declaredTypeId ← read .typeName "declared_type_id"
  let version ← read .version "declared_type_version"
  return {
    contextId, turnId, parentTurnId, depth, declaredTypeId
    declaredTypeVersion := version.getD 0
    hasDeclaredTypeId := declaredTypeId ≠ ""
    hasDeclaredTypeVer := version.isSome }

def decodeClientConnected : Option ClientConnectedEvent := do
  let sessionId ← read .string "session_id"
  let clientTag ← read .string "client_tag"
  return { sessionId, clientTag }

def decodeClientDisconnected : Option ClientDisconnectedEvent := do
  let sessionId ← read .string "session_id"
  let clientTag ← read .string "client_tag"
  let contexts ← read .strings "contexts"
  return { sessionId, clientTag, contexts }

def decode : EventKind → Option ClientEvent
  | .contextCreated => (decodeContextCreated read).map .contextCreated
  | .contextMetadataUpdated =>
      (decodeContextMetadataUpdated read).map .contextMetadataUpdated
  | .turnAppended => (decodeTurnAppended read).map .turnAppended
  | .clientConnected => (decodeClientConnected read).map .clientConnected
  | .clientDisconnected => (decodeClientDisconnected read).map .clientDisconnected

end Decoders

/-- The members of an object. -/
abbrev Members := List (String × Json)

/-- A character that folds to a small letter, or is the character. -/
def foldsTo (d c : Char) : Bool :=
  c = d || c = d.toUpper || (d = 'k' && c = '\u212a') || (d = 's' && c = '\u017f')

/-- The key is the name of the field but for the case of letters. -/
def matchesName : List Char → List Char → Bool
  | [], [] => true
  | d :: name, c :: key => foldsTo d c && matchesName name key
  | _, _ => false

def matchesKey (name key : String) : Bool := matchesName name.toList key.toList

/-- The members with the name of the field. -/
def named (name : String) (ms : Members) : Members := ms.filter fun m => m.1 = name

namespace Go

/-- The members that Go reads into the field. -/
def matching (name : String) (ms : Members) : Members := ms.filter fun m => matchesKey name m.1

def field (ms : Members) : FieldReader := fun t name =>
  ((matching name ms).foldlM (fun st m => Go.read t st m.2) (init t)).map (value t)

def decode (kind : EventKind) (ms : Members) : Option ClientEvent := Sse.decode (field ms) kind

end Go

namespace Rust

def field (ms : Members) : FieldReader := fun t name =>
  match named name ms with
  | [] => some t.default
  | [m] => Rust.read t m.2
  | _ => none

def decode (kind : EventKind) (ms : Members) : Option ClientEvent := Sse.decode (field ms) kind

end Rust

example : Go.decode .turnAppended [("turn_id", .string " 9 "), ("DEPTH", .integer false 3)] =
    some (.turnAppended ⟨0, 9, 0, 3, "", 0, false, false⟩) := by decide

/-! ### Decoders and fields -/

section Fields

variable {read read' : FieldReader} {kind : EventKind}

theorem decodeContextCreated_eq_some_iff {ev : ContextCreatedEvent} :
    decodeContextCreated read = some ev ↔ read .uint64 "context_id" = some ev.contextId ∧
      read .string "session_id" = some ev.sessionId ∧
      read .string "client_tag" = some ev.clientTag ∧
      read .int64 "created_at" = some ev.createdAt := by
  simp only [decodeContextCreated, Option.bind_eq_bind, Option.bind_eq_some_iff]
  constructor
  · rintro ⟨_, h₁, _, h₂, _, h₃, _, h₄, ⟨⟩⟩
    exact ⟨h₁, h₂, h₃, h₄⟩
  · rintro ⟨h₁, h₂, h₃, h₄⟩
    exact ⟨_, h₁, _, h₂, _, h₃, _, h₄, rfl⟩

theorem decodeContextMetadataUpdated_eq_some_iff {ev : ContextMetadataUpdatedEvent} :
    decodeContextMetadataUpdated read = some ev ↔
      read .uint64 "context_id" = some ev.contextId ∧
      read .bool "has_provenance" = some ev.hasProvenance ∧
      read .string "client_tag" = some ev.clientTag ∧ read .string "title" = some ev.title ∧
      read .strings "labels" = some ev.labels := by
  simp only [decodeContextMetadataUpdated, Option.bind_eq_bind, Option.bind_eq_some_iff]
  constructor
  · rintro ⟨_, h₁, _, h₂, _, h₃, _, h₄, _, h₅, ⟨⟩⟩
    exact ⟨h₁, h₂, h₃, h₄, h₅⟩
  · rintro ⟨h₁, h₂, h₃, h₄, h₅⟩
    exact ⟨_, h₁, _, h₂, _, h₃, _, h₄, _, h₅, rfl⟩

/-- A version that is there, and whether it is. -/
def versionOf (ev : TurnAppendedEvent) : Option UInt32 :=
  if ev.hasDeclaredTypeVer then some ev.declaredTypeVersion else none

/-- The version and the flag are read off what is there. -/
theorem versionOf_inj {ev ev' : TurnAppendedEvent}
    (hver : ev.hasDeclaredTypeVer = false → ev.declaredTypeVersion = 0)
    (hver' : ev'.hasDeclaredTypeVer = false → ev'.declaredTypeVersion = 0)
    (h : versionOf ev = versionOf ev') :
    ev.declaredTypeVersion = ev'.declaredTypeVersion ∧
      ev.hasDeclaredTypeVer = ev'.hasDeclaredTypeVer := by
  rw [versionOf, versionOf] at h
  cases hhas : ev.hasDeclaredTypeVer <;> cases hhas' : ev'.hasDeclaredTypeVer
  all_goals rw [hhas, hhas'] at h
  · exact ⟨(hver hhas).trans (hver' hhas').symm, rfl⟩
  · cases h
  · cases h
  · exact ⟨Option.some.inj h, rfl⟩

theorem decodeTurnAppended_eq_some_iff {ev : TurnAppendedEvent} :
    decodeTurnAppended read = some ev ↔ read .uint64 "context_id" = some ev.contextId ∧
      read .uint64 "turn_id" = some ev.turnId ∧
      read .uint64 "parent_turn_id" = some ev.parentTurnId ∧
      read .uint32 "depth" = some ev.depth ∧
      read .typeName "declared_type_id" = some ev.declaredTypeId ∧
      read .version "declared_type_version" = some (versionOf ev) ∧
      ev.hasDeclaredTypeId = (ev.declaredTypeId ≠ "" : Bool) ∧
      (ev.hasDeclaredTypeVer = false → ev.declaredTypeVersion = 0) := by
  simp only [decodeTurnAppended, Option.bind_eq_bind, Option.bind_eq_some_iff]
  constructor
  · rintro ⟨_, h₁, _, h₂, _, h₃, _, h₄, _, h₅, version, h₆, ⟨⟩⟩
    refine ⟨h₁, h₂, h₃, h₄, h₅, ?_, rfl, ?_⟩
    · rw [h₆, versionOf]
      cases version <;> rfl
    · cases version with
      | none => exact fun _ => rfl
      | some => nofun
  · rintro ⟨h₁, h₂, h₃, h₄, h₅, h₆, hid, hver⟩
    refine ⟨_, h₁, _, h₂, _, h₃, _, h₄, _, h₅, _, h₆, congrArg some ?_⟩
    refine TurnAppendedEvent.ext rfl rfl rfl rfl rfl ?_ hid.symm ?_
    all_goals
      dsimp only
      rw [versionOf]
      cases hhas : ev.hasDeclaredTypeVer with
      | false => first | rfl | exact (hver hhas).symm
      | true => rfl

theorem decodeClientConnected_eq_some_iff {ev : ClientConnectedEvent} :
    decodeClientConnected read = some ev ↔ read .string "session_id" = some ev.sessionId ∧
      read .string "client_tag" = some ev.clientTag := by
  simp only [decodeClientConnected, Option.bind_eq_bind, Option.bind_eq_some_iff]
  constructor
  · rintro ⟨_, h₁, _, h₂, ⟨⟩⟩
    exact ⟨h₁, h₂⟩
  · rintro ⟨h₁, h₂⟩
    exact ⟨_, h₁, _, h₂, rfl⟩

theorem decodeClientDisconnected_eq_some_iff {ev : ClientDisconnectedEvent} :
    decodeClientDisconnected read = some ev ↔ read .string "session_id" = some ev.sessionId ∧
      read .string "client_tag" = some ev.clientTag ∧
      read .strings "contexts" = some ev.contexts := by
  simp only [decodeClientDisconnected, Option.bind_eq_bind, Option.bind_eq_some_iff]
  constructor
  · rintro ⟨_, h₁, _, h₂, _, h₃, ⟨⟩⟩
    exact ⟨h₁, h₂, h₃⟩
  · rintro ⟨h₁, h₂, h₃⟩
    exact ⟨_, h₁, _, h₂, _, h₃, rfl⟩

/-- A step of a decoder. -/
theorem bind_eq_none_iff_or {α β : Type} {x : Option α} {f : α → Option β} {p : Prop}
    (h : ∀ a, f a = none ↔ p) : (x >>= f) = none ↔ x = none ∨ p := by
  cases x with
  | none => simp
  | some a => simpa using h a

/-- An event is decoded when all of its fields are read. -/
theorem decode_eq_none_iff :
    decode read kind = none ↔ ∃ f ∈ kind.fields, read f.2 f.1 = none := by
  have hend : ∀ {α : Type} (a : α), (pure a : Option α) = none ↔ False := by simp
  cases kind
  all_goals
    simp only [decode, EventKind.fields, Option.map_eq_none_iff, List.mem_cons, List.not_mem_nil,
      or_false, exists_eq_or_imp, exists_eq_left]
  · exact (bind_eq_none_iff_or fun _ => bind_eq_none_iff_or fun _ => bind_eq_none_iff_or fun _ =>
      bind_eq_none_iff_or fun _ => hend _).trans (by simp)
  · exact (bind_eq_none_iff_or fun _ => bind_eq_none_iff_or fun _ => bind_eq_none_iff_or fun _ =>
      bind_eq_none_iff_or fun _ => bind_eq_none_iff_or fun _ => hend _).trans (by simp)
  · exact (bind_eq_none_iff_or fun _ => bind_eq_none_iff_or fun _ => bind_eq_none_iff_or fun _ =>
      bind_eq_none_iff_or fun _ => bind_eq_none_iff_or fun _ => bind_eq_none_iff_or fun _ =>
        hend _).trans (by simp)
  · exact (bind_eq_none_iff_or fun _ => bind_eq_none_iff_or fun _ => hend _).trans (by simp)
  · exact (bind_eq_none_iff_or fun _ => bind_eq_none_iff_or fun _ => bind_eq_none_iff_or fun _ =>
      hend _).trans (by simp)

/-- **Two readers make the same event** exactly if they read the same of its fields. -/
theorem decode_eq_iff (h : decode read kind ≠ none) (h' : decode read' kind ≠ none) :
    decode read kind = decode read' kind ↔ ∀ f ∈ kind.fields, read f.2 f.1 = read' f.2 f.1 := by
  obtain ⟨ev, hev⟩ := Option.ne_none_iff_exists'.mp h
  obtain ⟨ev', hev'⟩ := Option.ne_none_iff_exists'.mp h'
  rw [hev, hev', Option.some.injEq]
  cases kind
  all_goals
    obtain ⟨a, ha, rfl⟩ := Option.map_eq_some_iff.mp hev
    obtain ⟨b, hb, rfl⟩ := Option.map_eq_some_iff.mp hev'
    simp only [EventKind.fields, List.forall_mem_cons, List.not_mem_nil, false_imp_iff,
      implies_true, and_true]
  case contextCreated =>
    obtain ⟨h₁, h₂, h₃, h₄⟩ := decodeContextCreated_eq_some_iff.mp ha
    obtain ⟨h₁', h₂', h₃', h₄'⟩ := decodeContextCreated_eq_some_iff.mp hb
    rw [h₁, h₂, h₃, h₄, h₁', h₂', h₃', h₄', ClientEvent.contextCreated.injEq,
      ContextCreatedEvent.ext_iff]
    simp only [Option.some.injEq]
  case contextMetadataUpdated =>
    obtain ⟨h₁, h₂, h₃, h₄, h₅⟩ := decodeContextMetadataUpdated_eq_some_iff.mp ha
    obtain ⟨h₁', h₂', h₃', h₄', h₅'⟩ := decodeContextMetadataUpdated_eq_some_iff.mp hb
    rw [h₁, h₂, h₃, h₄, h₅, h₁', h₂', h₃', h₄', h₅', ClientEvent.contextMetadataUpdated.injEq,
      ContextMetadataUpdatedEvent.ext_iff]
    simp only [Option.some.injEq]
  case turnAppended =>
    obtain ⟨h₁, h₂, h₃, h₄, h₅, h₆, hid, hver⟩ := decodeTurnAppended_eq_some_iff.mp ha
    obtain ⟨h₁', h₂', h₃', h₄', h₅', h₆', hid', hver'⟩ := decodeTurnAppended_eq_some_iff.mp hb
    rw [h₁, h₂, h₃, h₄, h₅, h₆, h₁', h₂', h₃', h₄', h₅', h₆', ClientEvent.turnAppended.injEq]
    simp only [Option.some.injEq]
    constructor
    · rintro rfl
      exact ⟨rfl, rfl, rfl, rfl, rfl, rfl⟩
    · rintro ⟨hcontext, hturn, hparent, hdepth, htype, hversion⟩
      obtain ⟨hversion, hhas⟩ := versionOf_inj hver hver' hversion
      exact TurnAppendedEvent.ext hcontext hturn hparent hdepth htype hversion
        (by rw [hid, hid', htype]) hhas
  case clientConnected =>
    obtain ⟨h₁, h₂⟩ := decodeClientConnected_eq_some_iff.mp ha
    obtain ⟨h₁', h₂'⟩ := decodeClientConnected_eq_some_iff.mp hb
    rw [h₁, h₂, h₁', h₂', ClientEvent.clientConnected.injEq, ClientConnectedEvent.ext_iff]
    simp only [Option.some.injEq]
  case clientDisconnected =>
    obtain ⟨h₁, h₂, h₃⟩ := decodeClientDisconnected_eq_some_iff.mp ha
    obtain ⟨h₁', h₂', h₃'⟩ := decodeClientDisconnected_eq_some_iff.mp hb
    rw [h₁, h₂, h₃, h₁', h₂', h₃', ClientEvent.clientDisconnected.injEq,
      ClientDisconnectedEvent.ext_iff]
    simp only [Option.some.injEq]

end Fields

/-! ### What is refused -/

section Refusals

variable {ms : Members} {name : String} {t : FieldType}

theorem matchesName_self : ∀ cs : List Char, matchesName cs cs = true
  | [] => rfl
  | c :: cs => by
      rw [matchesName, foldsTo, matchesName_self cs]
      simp

/-- The name itself is always taken for the field. -/
theorem matching_named : Go.matching name (named name ms) = named name ms := by
  refine List.filter_eq_self.mpr fun m hm => ?_
  have hname : m.1 = name := by simpa using (List.mem_filter.mp hm).2
  rw [hname]
  exact matchesName_self _

theorem named_subset_matching : named name ms ⊆ Go.matching name ms := by
  intro m hm
  rw [← matching_named] at hm
  exact List.mem_filter.mpr
    ⟨(List.mem_filter.mp (List.mem_filter.mp hm).1).1, (List.mem_filter.mp hm).2⟩

/-- A fold that fails at an element whatever came before it. -/
theorem foldlM_eq_none_iff {α β : Type} {f : β → α → Option β} {P : α → Prop}
    (h : ∀ b a, f b a = none ↔ P a) (as : List α) (b : β) :
    as.foldlM f b = none ↔ ∃ a ∈ as, P a := by
  induction as generalizing b with
  | nil => simp
  | cons a as ih =>
      rw [List.foldlM_cons]
      cases hf : f b a with
      | none => exact ⟨fun _ => ⟨a, List.mem_cons_self, (h b a).mp hf⟩, fun _ => rfl⟩
      | some b' =>
          have ha : ¬ P a := fun hP => by
            rw [(h b a).mpr hP] at hf
            cases hf
          have hor : (∃ x ∈ a :: as, P x) ↔ ∃ x ∈ as, P x := by simp [ha]
          rw [hor]
          exact ih b'

/-- Go refuses a field for one of its members. -/
theorem Go.field_eq_none_iff : Go.field ms t name = none ↔
    ∃ m ∈ Go.matching name ms, (verdict t m.2).goRefuses = true := by
  rw [Go.field, Option.map_eq_none_iff]
  exact foldlM_eq_none_iff (fun st m => Go.read_eq_none_iff t st m.2) _ _

/-- Rust refuses a field for its member, or for there being two of them. -/
theorem Rust.field_eq_none_iff : Rust.field ms t name = none ↔
    1 < (named name ms).length ∨
      ∃ m ∈ named name ms, (verdict t m.2).rustRefuses = true := by
  rw [Rust.field]
  cases named name ms with
  | nil => simp
  | cons m rest =>
      cases rest with
      | nil => simpa using Rust.read_eq_none_iff t m.2
      | cons => simp

/-- A field that neither refuses. -/
theorem Go.field_named (hgo : Go.field (named name ms) t name ≠ none)
    (hrust : Rust.field ms t name ≠ none) :
    Go.field (named name ms) t name = Rust.field ms t name := by
  rw [Ne, Go.field_eq_none_iff, matching_named] at hgo
  rw [Ne, Rust.field_eq_none_iff, not_or] at hrust
  obtain ⟨hone, hrust⟩ := hrust
  rw [Go.field, matching_named, Rust.field]
  rcases hnamed : named name ms with _ | ⟨m, rest⟩
  · cases t <;> rfl
  · rw [hnamed] at hone hgo hrust
    obtain rfl : rest = [] := by
      rw [List.length_cons] at hone
      exact List.eq_nil_of_length_eq_zero (by omega)
    have hboth : verdict t m.2 = .both :=
      Verdict.eq_both (fun h => hgo ⟨m, List.mem_cons_self, h⟩)
        fun h => hrust ⟨m, List.mem_cons_self, h⟩
    rw [List.foldlM_cons]
    simpa using goRead_eq_rustRead hboth

end Refusals

/-! ### When the clients agree -/

section Agreement

variable (kind : EventKind) (ms : Members)

/-- A member that Go takes for a field and refuses. -/
def Go.Refuses : Prop :=
  ∃ f ∈ kind.fields, ∃ m ∈ Go.matching f.1 ms, (verdict f.2 m.2).goRefuses = true

/-- A member with the name of a field that Rust refuses, or a name that is there twice. -/
def Rust.Refuses : Prop :=
  ∃ f ∈ kind.fields, 1 < (named f.1 ms).length ∨
    ∃ m ∈ named f.1 ms, (verdict f.2 m.2).rustRefuses = true

/-- Members with the name of a field in other letters make no difference to the field. -/
def Unchanged : Prop :=
  ∀ f ∈ kind.fields, Go.field ms f.2 f.1 = Go.field (named f.1 ms) f.2 f.1

theorem Go.decode_eq_none_iff : Go.decode kind ms = none ↔ Go.Refuses kind ms := by
  rw [Go.decode, Sse.decode_eq_none_iff, Go.Refuses]
  simp only [Go.field_eq_none_iff]

theorem Rust.decode_eq_none_iff : Rust.decode kind ms = none ↔ Rust.Refuses kind ms := by
  rw [Rust.decode, Sse.decode_eq_none_iff, Rust.Refuses]
  simp only [Rust.field_eq_none_iff]

/-- **The two clients agree** on an object if and only if Go refuses one of its members exactly if
Rust does, and, when neither does, no member in other letters changes a field. -/
theorem decoders_agree_iff : Go.decode kind ms = Rust.decode kind ms ↔
    (Go.Refuses kind ms ↔ Rust.Refuses kind ms) ∧ (¬ Rust.Refuses kind ms → Unchanged kind ms) := by
  have hgo := Go.decode_eq_none_iff kind ms
  have hrust := Rust.decode_eq_none_iff kind ms
  -- The value of every field, where neither refuses.
  have hvalues : ¬ Go.Refuses kind ms → ¬ Rust.Refuses kind ms →
      (Go.decode kind ms = Rust.decode kind ms ↔ Unchanged kind ms) := by
    intro hngo hnrust
    rw [Go.decode, Rust.decode, Sse.decode_eq_iff (mt hgo.mp hngo) (mt hrust.mp hnrust)]
    refine forall₂_congr fun f hf => ?_
    have hfield : Go.field (named f.1 ms) f.2 f.1 = Rust.field ms f.2 f.1 := by
      refine Go.field_named (fun h => hngo ?_) fun h => hnrust ?_
      · obtain ⟨m, hm, href⟩ := Go.field_eq_none_iff.mp h
        rw [matching_named] at hm
        exact ⟨f, hf, m, named_subset_matching hm, href⟩
      · exact ⟨f, hf, Rust.field_eq_none_iff.mp h⟩
    rw [hfield]
  constructor
  · intro h
    refine ⟨by rw [← hgo, ← hrust, h], fun hnrust => ?_⟩
    exact (hvalues (fun hr => hnrust (hrust.mp (h ▸ hgo.mpr hr))) hnrust).mp h
  · rintro ⟨hiff, hunchanged⟩
    by_cases hr : Rust.Refuses kind ms
    · rw [hgo.mpr (hiff.mpr hr), hrust.mpr hr]
    · exact (hvalues (mt hiff.mp hr) hr).mpr (hunchanged hr)

end Agreement

/-! ### Events of the server -/

mutual

/-- A value that `serde_json` wrote, as it is read. -/
def Json.ofValue : JsonText.Value → Json
  | .bool b => .bool b
  | .number n => .integer false n
  | .string s => .string s
  | .array items => .array (ofValues items)
  | .object fields => .object (ofFields fields)

def Json.ofValues : List JsonText.Value → List Json
  | [] => []
  | v :: vs => ofValue v :: ofValues vs

def Json.ofFields : List (String × JsonText.Value) → Members
  | [] => []
  | (key, v) :: fields => (key, ofValue v) :: ofFields fields

end

/-- The members of the data of an event, in the order of their keys. -/
def members (e : PublishedEvent) : Members :=
  match JsonText.Value.ofFields e.fields with
  | .object fields => Json.ofFields fields
  | _ => []

/-- The event that a kind of the clients is for. -/
def kindOf : PublishedEvent → Option EventKind
  | .contextCreated .. => some .contextCreated
  | .contextMetadataUpdated .. => some .contextMetadataUpdated
  | .turnAppended .. => some .turnAppended
  | .clientConnected .. => some .clientConnected
  | .clientDisconnected .. => some .clientDisconnected
  | .contextLinked .. | .errorOccurred .. => none

/-- The decoded event has exactly the fields of the event of the server: identifiers as numbers,
what is missing empty, and the flags of the declared type as the fields are there. -/
def Carries : PublishedEvent → ClientEvent → Prop
  | .contextCreated contextId sessionId clientTag createdAt, .contextCreated ev =>
      Decimal.print ev.contextId.toNat = contextId ∧ ev.sessionId = sessionId ∧
        ev.clientTag = clientTag ∧ ev.createdAt = createdAt.toNat
  | .contextMetadataUpdated contextId clientTag title labels hasProvenance,
      .contextMetadataUpdated ev =>
      Decimal.print ev.contextId.toNat = contextId ∧ ev.hasProvenance = hasProvenance ∧
        ev.clientTag = clientTag.getD "" ∧ ev.title = title.getD "" ∧
        ev.labels = labels.getD []
  | .turnAppended contextId turnId parentTurnId depth declaredTypeId declaredTypeVersion,
      .turnAppended ev =>
      Decimal.print ev.contextId.toNat = contextId ∧ Decimal.print ev.turnId.toNat = turnId ∧
        Decimal.print ev.parentTurnId.toNat = parentTurnId ∧ ev.depth = depth ∧
        ev.declaredTypeId = declaredTypeId.getD "" ∧
        ev.declaredTypeVersion = declaredTypeVersion.getD 0 ∧
        ev.hasDeclaredTypeId = declaredTypeId.isSome ∧
        ev.hasDeclaredTypeVer = declaredTypeVersion.isSome
  | .clientConnected sessionId clientTag, .clientConnected ev =>
      ev.sessionId = sessionId ∧ ev.clientTag = clientTag
  | .clientDisconnected sessionId clientTag contexts, .clientDisconnected ev =>
      ev.sessionId = sessionId ∧ ev.clientTag = clientTag ∧ ev.contexts = contexts
  | _, _ => False

/-- An identifier as the server writes it. -/
def IsId (s : String) : Prop := ∃ n : UInt64, s = Decimal.print n.toNat

/-- What both clients can read as it is: a time below `2^63`, and no empty name of a type. -/
def Deliverable : PublishedEvent → Prop
  | .contextCreated contextId _ _ createdAt => IsId contextId ∧ createdAt.toNat < 2 ^ 63
  | .contextMetadataUpdated contextId _ _ _ _ => IsId contextId
  | .turnAppended contextId turnId parentTurnId _ declaredTypeId _ =>
      IsId contextId ∧ IsId turnId ∧ IsId parentTurnId ∧ declaredTypeId ≠ some ""
  | _ => True

/-- The names of the fields of all kinds. -/
def fieldNames : List String :=
  ["context_id", "session_id", "client_tag", "created_at", "has_provenance", "title", "labels",
    "turn_id", "parent_turn_id", "depth", "declared_type_id", "declared_type_version", "contexts"]

/-- No name is another one in other letters. -/
theorem matchesKey_fieldNames : ∀ name ∈ fieldNames, ∀ key ∈ fieldNames,
    matchesKey name key = decide (key = name) := by decide

theorem Json.ofValues_string (ss : List String) :
    Json.ofValues (ss.map .string) = ss.map .string := by
  induction ss with
  | nil => rfl
  | cons s ss ih => rw [List.map_cons, Json.ofValues, ih, Json.ofValue, List.map_cons]

theorem Json.ofFields_eq_map (fields : List (String × JsonText.Value)) :
    Json.ofFields fields = fields.map fun f => (f.1, Json.ofValue f.2) := by
  induction fields with
  | nil => rfl
  | cons f fields ih => rw [Json.ofFields.eq_def, List.map_cons, ← ih]

/-- Inserting a field with a new key. -/
theorem insertField_perm {key : String} (v : JsonText.Value)
    {fields : List (String × JsonText.Value)} (h : key ∉ fields.map Prod.fst) :
    (JsonText.insertField key v fields).Perm ((key, v) :: fields) := by
  induction fields with
  | nil => exact List.Perm.refl _
  | cons field fields ih =>
      rw [List.map_cons, List.mem_cons, not_or] at h
      rw [JsonText.insertField, if_neg h.1]
      split
      · exact List.Perm.refl _
      · exact ((ih h.2).cons field).trans (List.Perm.swap _ _ _)

/-- An object has the fields that are put into it, if their keys are distinct. -/
theorem foldl_insertField_perm {fields m : List (String × JsonText.Value)}
    (h : ((m ++ fields).map Prod.fst).Nodup) :
    (fields.foldl (fun m field => JsonText.insertField field.1 field.2 m) m).Perm
      (m ++ fields) := by
  induction fields generalizing m with
  | nil => rw [List.foldl_nil, List.append_nil]
  | cons field fields ih =>
      have hnew : field.1 ∉ m.map Prod.fst := by
        rw [List.map_append, List.map_cons, List.nodup_append] at h
        exact fun hmem => h.2.2 _ hmem _ List.mem_cons_self rfl
      have hinsert := insertField_perm field.2 hnew
      have hperm : (JsonText.insertField field.1 field.2 m ++ fields).Perm
          (m ++ field :: fields) :=
        (hinsert.append_right fields).trans List.perm_middle.symm
      exact (ih ((hperm.map Prod.fst).nodup_iff.mpr h)).trans hperm

/-- The keys that an event sets are distinct names of fields. -/
theorem keys_fields {e : PublishedEvent} (h : (kindOf e).isSome) :
    (e.fields.map Prod.fst).Nodup ∧ ∀ key ∈ e.fields.map Prod.fst, key ∈ fieldNames := by
  cases e with
  | contextLinked | errorOccurred => cases h
  | contextMetadataUpdated contextId clientTag title labels hasProvenance =>
      cases clientTag <;> cases title <;> cases labels <;>
        simp [PublishedEvent.fields, optionalField, fieldNames]
  | turnAppended contextId turnId parentTurnId depth declaredTypeId declaredTypeVersion =>
      cases declaredTypeId <;> cases declaredTypeVersion <;>
        simp [PublishedEvent.fields, optionalField, fieldNames]
  | contextCreated | clientConnected | clientDisconnected =>
      simp [PublishedEvent.fields, fieldNames]

/-- The members of an event are its fields, in another order. -/
theorem members_perm {e : PublishedEvent} (h : (kindOf e).isSome) :
    (members e).Perm (e.fields.map fun f => (f.1, Json.ofValue f.2)) := by
  have hfields := @foldl_insertField_perm e.fields [] (keys_fields h).1
  change (Json.ofFields _).Perm _
  rw [Json.ofFields_eq_map]
  exact hfields.map _

/-- The keys of an event are distinct names of fields. -/
theorem keys_members {e : PublishedEvent} (h : (kindOf e).isSome) :
    ((members e).map Prod.fst).Nodup ∧ ∀ key ∈ (members e).map Prod.fst, key ∈ fieldNames := by
  obtain ⟨hnodup, hnames⟩ := keys_fields h
  have hkeys : ((members e).map Prod.fst).Perm (e.fields.map Prod.fst) := by
    have hperm := (members_perm h).map Prod.fst
    rwa [List.map_map] at hperm
  exact ⟨hkeys.nodup_iff.mpr hnodup, fun key hkey => hnames key (hkeys.mem_iff.mp hkey)⟩

theorem lookup_eq_of_perm {l l' : Members} (hperm : l.Perm l') (h : (l.map Prod.fst).Nodup)
    (name : String) : l.lookup name = l'.lookup name := by
  induction hperm with
  | nil => rfl
  | cons m _ ih =>
      rw [List.lookup_cons, List.lookup_cons, ih (List.nodup_cons.mp h).2]
  | swap m m' l =>
      have hne : m'.1 ≠ m.1 := fun heq => (List.nodup_cons.mp h).1 (heq ▸ List.mem_cons_self)
      rw [List.lookup_cons, List.lookup_cons, List.lookup_cons, List.lookup_cons]
      by_cases hm : name = m.1
      · rw [hm, beq_self_eq_true, beq_false_of_ne (Ne.symm hne)]
      · rw [beq_false_of_ne hm]
  | trans hfirst _ ih ih' =>
      rw [ih h, ih' ((hfirst.map Prod.fst).nodup_iff.mp h)]

/-- What a member of an event is, by the field of its name. -/
theorem lookup_members {e : PublishedEvent} (h : (kindOf e).isSome) (name : String) :
    (members e).lookup name = (e.fields.lookup name).map Json.ofValue := by
  rw [lookup_eq_of_perm (members_perm h) (keys_members h).1]
  induction e.fields with
  | nil => rfl
  | cons field fields ih =>
      rw [List.map_cons, List.lookup_cons, List.lookup_cons, ih]
      cases name == field.1 <;> rfl

/-- A member whose key is there once. -/
theorem named_eq_lookup {ms : Members} (h : (ms.map Prod.fst).Nodup) (name : String) :
    named name ms = ((ms.lookup name).map fun v => (name, v)).toList := by
  induction ms with
  | nil => rfl
  | cons m ms ih =>
      obtain ⟨key, v⟩ := m
      obtain ⟨hnot, hnodup⟩ := List.nodup_cons.mp h
      rw [named, List.filter_cons, List.lookup_cons]
      by_cases hkey : key = name
      · subst hkey
        have hrest : named key ms = [] := by
          refine List.filter_eq_nil_iff.mpr fun m hm heq => hnot ?_
          rw [decide_eq_true_eq] at heq
          exact List.mem_map.mpr ⟨m, hm, heq⟩
        rw [if_pos (decide_eq_true rfl), beq_self_eq_true]
        exact congrArg _ hrest
      · rw [if_neg (by simpa using hkey), beq_false_of_ne (Ne.symm hkey)]
        exact ih hnodup

/-- A field of an event, as either client reads it. -/
theorem field_members {e : PublishedEvent} (h : (kindOf e).isSome) (t : FieldType) {name : String}
    (hname : name ∈ fieldNames) :
    Go.field (members e) t name = (((members e).lookup name).elim (some t.default) fun v =>
        (Go.read t (Go.init t) v).map (Go.value t)) ∧
      Rust.field (members e) t name =
        ((members e).lookup name).elim (some t.default) (Rust.read t) := by
  obtain ⟨hnodup, hkeys⟩ := keys_members h
  have hnamed := named_eq_lookup hnodup name
  have hmatching : Go.matching name (members e) = named name (members e) := by
    refine List.filter_congr fun m hm => ?_
    exact matchesKey_fieldNames name hname m.1 (hkeys m.1 (List.mem_map_of_mem hm))
  constructor
  · rw [Go.field, hmatching, hnamed]
    cases (members e).lookup name with
    | none => cases t <;> rfl
    | some v => simp
  · rw [Rust.field, hnamed]
    cases (members e).lookup name <;> rfl

/-- A number has no blanks around it. -/
theorem trim_print (n : ℕ) : trim (Decimal.print n) = Decimal.print n := by
  have hdigit : ∀ c ∈ F64.paddedDigits 1 n, UnicodeTables.isWhitespace c = false :=
    fun c hc => (UnicodeTables.not_blank_of_isDigit (F64.isDigit_of_mem_paddedDigits hc)).1
  rw [trim, Decimal.print, String.toList_ofList]
  have hleft : (F64.paddedDigits 1 n).dropWhile UnicodeTables.isWhitespace =
      F64.paddedDigits 1 n := by
    refine List.dropWhile_eq_self_iff.mpr fun hpos => ?_
    rw [hdigit _ (List.getElem_mem hpos)]
    decide
  have hright : (F64.paddedDigits 1 n).rdropWhile UnicodeTables.isWhitespace =
      F64.paddedDigits 1 n := by
    refine List.rdropWhile_eq_self_iff.mpr fun hne => ?_
    rw [hdigit _ (List.getLast_mem hne)]
    decide
  rw [hleft, hright]

theorem print_ne_plus (n : ℕ) (cs : List Char) : (Decimal.print n).toList ≠ '+' :: cs := by
  intro h
  rw [Decimal.print, String.toList_ofList] at h
  have hmem : '+' ∈ F64.paddedDigits 1 n := h ▸ List.mem_cons_self
  exact absurd (F64.isDigit_of_mem_paddedDigits hmem) (by decide)

theorem print_ne_empty (n : ℕ) : Decimal.print n ≠ "" := by
  intro h
  have hnil : F64.paddedDigits 1 n = [] := by
    rw [← @String.toList_ofList (F64.paddedDigits 1 n), ← Decimal.print, h]
    rfl
  have hlen := F64.length_paddedDigits 1 n
  rw [hnil] at hlen
  exact absurd hlen (by decide)

/-- Rust reads identifiers of the server as they are written, and so does Go. -/
theorem read_print (n : UInt64) :
    verdict .uint64 (.string (Decimal.print n.toNat)) = .both ∧
      Rust.read .uint64 (.string (Decimal.print n.toNat)) = some n := by
  have hparse := Decimal.parseU64_print n
  have hgo : Go.decodeUint64 0 (.string (Decimal.print n.toNat)) = some n := by
    rw [Go.decodeUint64, trim_print, if_neg (print_ne_empty _), Go.parseUint_eq,
      ← parseU64_of_ne_plus (print_ne_plus _), hparse]
  have hrust : Rust.sseUint64 (.string (Decimal.print n.toNat)) = some n := by
    rw [Rust.sseUint64, Rust.parseU64Str, trim_print, if_neg (print_ne_empty _), hparse]
  refine ⟨Verdict.eq_both (fun h => ?_) fun h => ?_, hrust⟩
  · rw [verdict, ← (uint64_spec _).1 0, hgo] at h
    cases h
  · rw [verdict, ← (uint64_spec _).2.1, hrust] at h
    cases h

/-- Both clients make the event of the data, with exactly the fields of the server's event. -/
def Delivers (kind : EventKind) (e : PublishedEvent) : Prop :=
  ∃ ev, Go.decode kind (members e) = some ev ∧ Rust.decode kind (members e) = some ev ∧
    Carries e ev

/-- Both clients read the value of a field. -/
def Reads (e : PublishedEvent) (t : FieldType) (name : String) (a : t.Carrier) : Prop :=
  Go.field (members e) t name = some a ∧ Rust.field (members e) t name = some a

section Delivery

variable {e : PublishedEvent} {name : String}

theorem reads_default (h : (kindOf e).isSome) (t : FieldType) (hname : name ∈ fieldNames)
    (hlookup : (members e).lookup name = none) : Reads e t name t.default := by
  obtain ⟨hgo, hrust⟩ := field_members h t hname
  rw [hlookup] at hgo hrust
  exact ⟨hgo, hrust⟩

theorem reads_some (h : (kindOf e).isSome) {t : FieldType} (hname : name ∈ fieldNames)
    {v : Json} (hlookup : (members e).lookup name = some v) (hv : verdict t v = .both)
    {a : t.Carrier} (ha : Rust.read t v = some a) : Reads e t name a := by
  obtain ⟨hgo, hrust⟩ := field_members h t hname
  rw [hlookup] at hgo hrust
  exact ⟨hgo.trans ((goRead_eq_rustRead hv).trans ha), hrust.trans ha⟩

/-- An identifier that the server wrote. -/
theorem reads_id (h : (kindOf e).isSome) (hname : name ∈ fieldNames) {n : UInt64}
    (hlookup : (members e).lookup name = some (.string (Decimal.print n.toNat))) :
    Reads e .uint64 name n :=
  reads_some h hname hlookup (read_print n).1 (read_print n).2

/-- A text, which may be missing. -/
theorem reads_string (h : (kindOf e).isSome) (hname : name ∈ fieldNames) {s : Option String}
    (hlookup : (members e).lookup name = s.map .string) : Reads e .string name (s.getD "") := by
  cases s with
  | none => exact reads_default h .string hname hlookup
  | some s => exact reads_some h hname hlookup rfl rfl

/-- The name of a type, which may be missing. -/
theorem reads_typeName (h : (kindOf e).isSome) (hname : name ∈ fieldNames) {s : Option String}
    (hlookup : (members e).lookup name = s.map .string) : Reads e .typeName name (s.getD "") := by
  cases s with
  | none => exact reads_default h .typeName hname hlookup
  | some s => exact reads_some h hname hlookup rfl rfl

/-- Texts, which may be missing. -/
theorem reads_strings (h : (kindOf e).isSome) (hname : name ∈ fieldNames)
    {ss : Option (List String)}
    (hlookup : (members e).lookup name = ss.map fun ss => .array (ss.map .string)) :
    Reads e .strings name (ss.getD []) := by
  cases ss with
  | none => exact reads_default h .strings hname hlookup
  | some ss =>
      exact @reads_some e name h .strings hname _ hlookup (stringsVerdict_map ss) ss
        (Rust.mapM_readString_map ss)

/-- A depth. -/
theorem read_uint32 (n : UInt32) :
    verdict .uint32 (.integer false n.toNat) = .both ∧
      Rust.sseUint32 (.integer false n.toNat) = some n := by
  have hlt : n.toNat < 2 ^ 32 := n.toNat_lt
  constructor
  · rw [verdict, uintVerdict, if_neg (by omega), if_neg (by omega)]
  · rw [Rust.sseUint32_eq, (uint64_nonneg 0 _).2, if_pos (by omega), Option.bind_some,
      visitU64_ofNat (by omega), if_pos hlt, UInt32.ofNat_toNat]

theorem reads_uint32 (h : (kindOf e).isSome) (hname : name ∈ fieldNames) {n : UInt32}
    (hlookup : (members e).lookup name = some (.integer false n.toNat)) :
    Reads e .uint32 name n :=
  reads_some h hname hlookup (read_uint32 n).1 (read_uint32 n).2

/-- A time below `2^63`. -/
theorem reads_int64 (h : (kindOf e).isSome) (hname : name ∈ fieldNames) {n : ℕ}
    (hn : n < 2 ^ 63) (hlookup : (members e).lookup name = some (.integer false n)) :
    Reads e .int64 name n := by
  refine reads_some h hname hlookup ?_ ?_
  · rw [verdict, intVerdict, if_pos hn]
  · exact (Rust.sseInt64_nonneg n).trans (if_pos hn)

/-- A version, which may be missing. -/
theorem reads_version (h : (kindOf e).isSome) (hname : name ∈ fieldNames) {n : Option UInt32}
    (hlookup : (members e).lookup name = n.map fun n => .integer false n.toNat) :
    Reads e .version name n := by
  cases n with
  | none => exact reads_default h .version hname hlookup
  | some n =>
      obtain ⟨hverdict, hread⟩ := read_uint32 n
      exact @reads_some e name h .version hname _ hlookup hverdict (some n)
        (congrArg (Option.map some) hread)

theorem delivers_contextCreated (contextId sessionId clientTag : String) (createdAt : UInt64) :
    Delivers .contextCreated (.contextCreated contextId sessionId clientTag createdAt) ↔
      IsId contextId ∧ createdAt.toNat < 2 ^ 63 := by
  have hlookup := @lookup_members (.contextCreated contextId sessionId clientTag createdAt) rfl
  have hname : ∀ f ∈ EventKind.contextCreated.fields, f.1 ∈ fieldNames := by
    simp [EventKind.fields, fieldNames]
  constructor
  · rintro ⟨ev, hgo, -, hcarries⟩
    obtain ⟨a, ha, rfl⟩ := Option.map_eq_some_iff.mp hgo
    refine ⟨⟨a.contextId, hcarries.1.symm⟩, ?_⟩
    -- Go reads no time from `2^63` on.
    have hcreated := (decodeContextCreated_eq_some_iff.mp ha).2.2.2
    rw [(field_members rfl .int64 (hname ("created_at", .int64) (by simp [EventKind.fields]))).1,
      hlookup] at hcreated
    by_contra hlt
    have hnone : Go.read .int64 (Go.init .int64) (.integer false createdAt.toNat) = none := by
      rw [Go.read_eq_none_iff, verdict, intVerdict, if_neg hlt]
      rfl
    simp [PublishedEvent.fields, List.lookup_cons, Json.ofValue, hnone] at hcreated
  · rintro ⟨⟨n, rfl⟩, hlt⟩
    obtain ⟨hcontext, hcontext'⟩ := @reads_id _ "context_id" rfl (by simp [fieldNames]) n
      (by rw [hlookup]; rfl)
    obtain ⟨hsession, hsession'⟩ := @reads_string _ "session_id" rfl (by simp [fieldNames])
      (some sessionId) (by rw [hlookup]; rfl)
    obtain ⟨htag, htag'⟩ := @reads_string _ "client_tag" rfl (by simp [fieldNames])
      (some clientTag) (by rw [hlookup]; rfl)
    obtain ⟨hcreated, hcreated'⟩ := @reads_int64 _ "created_at" rfl (by simp [fieldNames])
      createdAt.toNat hlt (by rw [hlookup]; rfl)
    refine ⟨.contextCreated ⟨n, sessionId, clientTag, createdAt.toNat⟩, ?_, ?_, rfl, rfl, rfl, rfl⟩
    · exact Option.map_eq_some_iff.mpr
        ⟨_, decodeContextCreated_eq_some_iff.mpr ⟨hcontext, hsession, htag, hcreated⟩, rfl⟩
    · exact Option.map_eq_some_iff.mpr
        ⟨_, decodeContextCreated_eq_some_iff.mpr ⟨hcontext', hsession', htag', hcreated'⟩, rfl⟩

theorem delivers_contextMetadataUpdated (contextId : String) (clientTag title : Option String)
    (labels : Option (List String)) (hasProvenance : Bool) :
    Delivers .contextMetadataUpdated
      (.contextMetadataUpdated contextId clientTag title labels hasProvenance) ↔
      IsId contextId := by
  constructor
  · rintro ⟨ev, hgo, -, hcarries⟩
    obtain ⟨a, -, rfl⟩ := Option.map_eq_some_iff.mp hgo
    exact ⟨a.contextId, hcarries.1.symm⟩
  · rintro ⟨n, rfl⟩
    generalize he : PublishedEvent.contextMetadataUpdated (Decimal.print n.toNat) clientTag title
      labels hasProvenance = e
    have hkind : (kindOf e).isSome := by subst he; rfl
    have hlookup : (members e).lookup "context_id" = some (.string (Decimal.print n.toNat)) ∧
        (members e).lookup "has_provenance" = some (.bool hasProvenance) ∧
        (members e).lookup "client_tag" = clientTag.map .string ∧
        (members e).lookup "title" = title.map .string ∧
        (members e).lookup "labels" = labels.map fun ss => .array (ss.map .string) := by
      subst he
      simp only [@lookup_members (.contextMetadataUpdated _ _ _ _ _) rfl]
      cases clientTag <;> cases title <;> cases labels <;>
        simp [PublishedEvent.fields, optionalField, stringsValue, Json.ofValue,
          Json.ofValues_string, List.lookup_cons, List.lookup_nil]
    obtain ⟨hlcontext, hlprovenance, hltag, hltitle, hllabels⟩ := hlookup
    obtain ⟨hcontext, hcontext'⟩ := reads_id hkind (by simp [fieldNames]) hlcontext
    obtain ⟨hprovenance, hprovenance'⟩ := @reads_some _ _ hkind .bool (by simp [fieldNames]) _
      hlprovenance rfl _ rfl
    obtain ⟨htag, htag'⟩ := reads_string hkind (by simp [fieldNames]) hltag
    obtain ⟨htitle, htitle'⟩ := reads_string hkind (by simp [fieldNames]) hltitle
    obtain ⟨hlabels, hlabels'⟩ := reads_strings hkind (by simp [fieldNames]) hllabels
    subst he
    refine ⟨.contextMetadataUpdated
      ⟨n, hasProvenance, clientTag.getD "", title.getD "", labels.getD []⟩, ?_, ?_,
      rfl, rfl, rfl, rfl, rfl⟩
    · exact Option.map_eq_some_iff.mpr ⟨_, decodeContextMetadataUpdated_eq_some_iff.mpr
        ⟨hcontext, hprovenance, htag, htitle, hlabels⟩, rfl⟩
    · exact Option.map_eq_some_iff.mpr ⟨_, decodeContextMetadataUpdated_eq_some_iff.mpr
        ⟨hcontext', hprovenance', htag', htitle', hlabels'⟩, rfl⟩

theorem delivers_turnAppended (contextId turnId parentTurnId : String) (depth : UInt32)
    (declaredTypeId : Option String) (declaredTypeVersion : Option UInt32) :
    Delivers .turnAppended (.turnAppended contextId turnId parentTurnId depth declaredTypeId
      declaredTypeVersion) ↔
      IsId contextId ∧ IsId turnId ∧ IsId parentTurnId ∧ declaredTypeId ≠ some "" := by
  constructor
  · rintro ⟨ev, hgo, -, hcarries⟩
    obtain ⟨a, ha, rfl⟩ := Option.map_eq_some_iff.mp hgo
    obtain ⟨hcontext, hturn, hparent, -, htype, -, hhas, -⟩ := hcarries
    refine ⟨⟨a.contextId, hcontext.symm⟩, ⟨a.turnId, hturn.symm⟩, ⟨a.parentTurnId, hparent.symm⟩,
      ?_⟩
    -- An empty name is taken for none.
    rintro rfl
    have hid := (decodeTurnAppended_eq_some_iff.mp ha).2.2.2.2.2.2.1
    rw [hhas, htype] at hid
    exact absurd hid (by decide)
  · rintro ⟨⟨n, rfl⟩, ⟨turn, rfl⟩, ⟨parent, rfl⟩, htype⟩
    generalize he : PublishedEvent.turnAppended (Decimal.print n.toNat) (Decimal.print turn.toNat)
      (Decimal.print parent.toNat) depth declaredTypeId declaredTypeVersion = e
    have hkind : (kindOf e).isSome := by subst he; rfl
    have hlookup : (members e).lookup "context_id" = some (.string (Decimal.print n.toNat)) ∧
        (members e).lookup "turn_id" = some (.string (Decimal.print turn.toNat)) ∧
        (members e).lookup "parent_turn_id" = some (.string (Decimal.print parent.toNat)) ∧
        (members e).lookup "depth" = some (.integer false depth.toNat) ∧
        (members e).lookup "declared_type_id" = declaredTypeId.map .string ∧
        (members e).lookup "declared_type_version" =
          declaredTypeVersion.map fun v => .integer false v.toNat := by
      subst he
      simp only [@lookup_members (.turnAppended _ _ _ _ _ _) rfl]
      cases declaredTypeId <;> cases declaredTypeVersion <;>
        simp [PublishedEvent.fields, optionalField, Json.ofValue, List.lookup_cons, List.lookup_nil]
    obtain ⟨hlcontext, hlturn, hlparent, hldepth, hltype, hlversion⟩ := hlookup
    obtain ⟨hcontext, hcontext'⟩ := reads_id hkind (by simp [fieldNames]) hlcontext
    obtain ⟨hturn, hturn'⟩ := reads_id hkind (by simp [fieldNames]) hlturn
    obtain ⟨hparent, hparent'⟩ := reads_id hkind (by simp [fieldNames]) hlparent
    obtain ⟨hdepth, hdepth'⟩ := reads_uint32 hkind (by simp [fieldNames]) hldepth
    obtain ⟨hname, hname'⟩ := reads_typeName hkind (by simp [fieldNames]) hltype
    obtain ⟨hversion, hversion'⟩ := reads_version hkind (by simp [fieldNames]) hlversion
    subst he
    have hflag : declaredTypeId.isSome = (declaredTypeId.getD "" ≠ "" : Bool) := by
      cases declaredTypeId with
      | none => rfl
      | some s => simpa using htype
    have hversionOf : versionOf ⟨n, turn, parent, depth, declaredTypeId.getD "",
        declaredTypeVersion.getD 0, declaredTypeId.isSome, declaredTypeVersion.isSome⟩ =
        declaredTypeVersion := by
      cases declaredTypeVersion <;> rfl
    have hmissing : declaredTypeVersion.isSome = false → declaredTypeVersion.getD 0 = 0 := by
      cases declaredTypeVersion with
      | none => exact fun _ => rfl
      | some v => exact fun h => absurd h Bool.noConfusion
    refine ⟨.turnAppended ⟨n, turn, parent, depth, declaredTypeId.getD "",
      declaredTypeVersion.getD 0, declaredTypeId.isSome, declaredTypeVersion.isSome⟩, ?_, ?_,
      rfl, rfl, rfl, rfl, rfl, rfl, rfl, rfl⟩
    · exact Option.map_eq_some_iff.mpr ⟨_, decodeTurnAppended_eq_some_iff.mpr ⟨hcontext, hturn,
        hparent, hdepth, hname, by rw [hversionOf]; exact hversion, hflag, hmissing⟩, rfl⟩
    · exact Option.map_eq_some_iff.mpr ⟨_, decodeTurnAppended_eq_some_iff.mpr ⟨hcontext', hturn',
        hparent', hdepth', hname', by rw [hversionOf]; exact hversion', hflag, hmissing⟩, rfl⟩

theorem delivers_clientConnected (sessionId clientTag : String) :
    Delivers .clientConnected (.clientConnected sessionId clientTag) := by
  have hlookup := @lookup_members (.clientConnected sessionId clientTag) rfl
  obtain ⟨hsession, hsession'⟩ := @reads_string _ "session_id" rfl (by simp [fieldNames])
    (some sessionId) (by rw [hlookup]; rfl)
  obtain ⟨htag, htag'⟩ := @reads_string _ "client_tag" rfl (by simp [fieldNames])
    (some clientTag) (by rw [hlookup]; rfl)
  refine ⟨.clientConnected ⟨sessionId, clientTag⟩, ?_, ?_, rfl, rfl⟩
  · exact Option.map_eq_some_iff.mpr
      ⟨_, decodeClientConnected_eq_some_iff.mpr ⟨hsession, htag⟩, rfl⟩
  · exact Option.map_eq_some_iff.mpr
      ⟨_, decodeClientConnected_eq_some_iff.mpr ⟨hsession', htag'⟩, rfl⟩

theorem delivers_clientDisconnected (sessionId clientTag : String) (contexts : List String) :
    Delivers .clientDisconnected (.clientDisconnected sessionId clientTag contexts) := by
  have hlookup := @lookup_members (.clientDisconnected sessionId clientTag contexts) rfl
  obtain ⟨hsession, hsession'⟩ := @reads_string _ "session_id" rfl (by simp [fieldNames])
    (some sessionId) (by rw [hlookup]; rfl)
  obtain ⟨htag, htag'⟩ := @reads_string _ "client_tag" rfl (by simp [fieldNames])
    (some clientTag) (by rw [hlookup]; rfl)
  obtain ⟨hcontexts, hcontexts'⟩ := @reads_strings _ "contexts" rfl (by simp [fieldNames])
    (some contexts) (by
      rw [hlookup]
      simp [PublishedEvent.fields, stringsValue, Json.ofValue, Json.ofValues_string,
        List.lookup_cons])
  refine ⟨.clientDisconnected ⟨sessionId, clientTag, contexts⟩, ?_, ?_, rfl, rfl, rfl⟩
  · exact Option.map_eq_some_iff.mpr
      ⟨_, decodeClientDisconnected_eq_some_iff.mpr ⟨hsession, htag, hcontexts⟩, rfl⟩
  · exact Option.map_eq_some_iff.mpr
      ⟨_, decodeClientDisconnected_eq_some_iff.mpr ⟨hsession', htag', hcontexts'⟩, rfl⟩

/-- **Events of the server** are decoded with exactly their fields, if and only if they are
deliverable. -/
theorem delivered_iff {e : PublishedEvent} {kind : EventKind} (h : kindOf e = some kind) :
    Delivers kind e ↔ Deliverable e := by
  cases e with
  | contextLinked | errorOccurred => cases h
  | contextCreated =>
      cases h
      exact delivers_contextCreated _ _ _ _
  | contextMetadataUpdated =>
      cases h
      exact delivers_contextMetadataUpdated _ _ _ _ _
  | turnAppended =>
      cases h
      exact delivers_turnAppended _ _ _ _ _ _
  | clientConnected =>
      cases h
      exact iff_of_true (delivers_clientConnected _ _) trivial
  | clientDisconnected =>
      cases h
      exact iff_of_true (delivers_clientDisconnected _ _ _) trivial

end Delivery

/-- **Typed event decoders.** The two clients decode an event of the server with exactly its fields
if and only if its identifiers are decimal numbers of 64 bits, its time is below `2^63` and its
declared type has no empty name. They make the same of a JSON object if and only if Go refuses one
of its members exactly if Rust does, and no name of a field in other letters changes the field. -/
theorem event_decoders (kind : EventKind) (e : PublishedEvent) (ms : Members) :
    (kindOf e = some kind → (Delivers kind e ↔ Deliverable e)) ∧
      (Go.decode kind ms = Rust.decode kind ms ↔
        (Go.Refuses kind ms ↔ Rust.Refuses kind ms) ∧
          (¬ Rust.Refuses kind ms → Unchanged kind ms)) :=
  ⟨delivered_iff, decoders_agree_iff kind ms⟩

theorem event_decoders_firstTurn :
    Delivers .turnAppended (.turnAppended "7" "9" "0" 1 (some "example.Turn") (some 2)) :=
  ((event_decoders .turnAppended (.turnAppended "7" "9" "0" 1 (some "example.Turn") (some 2))
    []).1 rfl).mpr ⟨⟨7, by decide⟩, ⟨9, by decide⟩, ⟨0, by decide⟩, by decide⟩

/-- A turn number of `2^63`, which only Rust reads, and an event of the server with an empty name
for its declared type, which both take for none. -/
theorem large_turn_id :
    Go.decode .turnAppended [("turn_id", .integer false (2 ^ 63))] = none ∧
      Rust.decode .turnAppended [("turn_id", .integer false (2 ^ 63))] =
        some (.turnAppended ⟨0, UInt64.ofNat (2 ^ 63), 0, 0, "", 0, false, false⟩) ∧
      ¬ Delivers .turnAppended (.turnAppended "7" "9" "0" 1 (some "") (some 2)) :=
  ⟨by decide, by decide,
    fun h => ((delivers_turnAppended _ _ _ _ _ _).mp h).2.2.2 rfl⟩

end Sse

end Cxdb
