import Cxdb.CqlExecutor
import Cxdb.MsgpackValue

/-!
# Metadata in a Payload

`extract_context_metadata` of `store.rs`: the payload of a context's first turn is a msgpack
map, whose entry 30 holds the client tag, the title, the labels and the provenance of the
context. Keys are integers or strings that spell one.

Reading msgpack is left to the `rmpv` crate, which is a parameter here; what the server
makes of the value it gets is below. Of the provenance only the fields that the server
reads again are kept.
-/

open ByteFormat

namespace Cxdb

/-- `rmpv::decode::read_value` on a payload. -/
abbrev MsgpackReader := Bytes → Option MsgpackValue

/-- `str::parse::<u64>`: digits, after a plus sign or not. -/
def parseTag (s : String) : Option UInt64 :=
  match s.toList with
  | '+' :: ds => parseU64 ds
  | ds => parseU64 ds

def keyToTag : MsgpackValue → Option UInt64
  | .integer n => integerAsU64 n
  | .string s => s.bind parseTag
  | _ => none

def extractString : MsgpackValue → Option String
  | .string s => s
  | _ => none

def extractU64 : MsgpackValue → Option UInt64
  | .integer n => integerAsU64 n
  | _ => none

def Provenance.default : Provenance where
  parentContextId := none
  spawnReason := none
  rootContextId := none
  traceId := none
  onBehalfOf := none
  serviceName := none
  hostName := none

def ContextMetadata.default : ContextMetadata where
  clientTag := none
  title := none
  labels := none
  provenance := none

/-- One pass of the loop of `extract_provenance`. -/
def Provenance.readEntry (prov : Provenance) (entry : MsgpackValue × MsgpackValue) :
    Provenance :=
  match keyToTag entry.1 with
  | none => prov
  | some key =>
      if key = 1 then { prov with parentContextId := extractU64 entry.2 }
      else if key = 2 then { prov with spawnReason := extractString entry.2 }
      else if key = 3 then { prov with rootContextId := extractU64 entry.2 }
      else if key = 10 then { prov with traceId := extractString entry.2 }
      else if key = 20 then { prov with onBehalfOf := extractString entry.2 }
      else if key = 40 then { prov with serviceName := extractString entry.2 }
      else if key = 45 then { prov with hostName := extractString entry.2 }
      else prov

def extractProvenance (entries : List (MsgpackValue × MsgpackValue)) : Provenance :=
  entries.foldl Provenance.readEntry .default

/-- One pass of the loop of `extract_context_metadata`: a value of another type is passed
over. -/
def ContextMetadata.readEntry (metadata : ContextMetadata)
    (entry : MsgpackValue × MsgpackValue) : ContextMetadata :=
  match keyToTag entry.1 with
  | none => metadata
  | some key =>
      if key = 1 then
        match entry.2 with
        | .string s => { metadata with clientTag := s }
        | _ => metadata
      else if key = 2 then
        match entry.2 with
        | .string s => { metadata with title := s }
        | _ => metadata
      else if key = 3 then
        match entry.2 with
        | .array items =>
            let labels := items.filterMap extractString
            if labels = [] then metadata else { metadata with labels := some labels }
        | _ => metadata
      else if key = 10 then
        match entry.2 with
        | .map entries => { metadata with provenance := some (extractProvenance entries) }
        | _ => metadata
      else metadata

def extractContextMetadata (readValue : MsgpackReader) (payload : Bytes) :
    Option ContextMetadata :=
  match readValue payload with
  | some (.map entries) =>
    match entries.find? fun entry => keyToTag entry.1 = some 30 with
    | some (_, .map fields) =>
        let metadata := fields.foldl ContextMetadata.readEntry .default
        if metadata.clientTag.isSome ∨ metadata.title.isSome ∨ metadata.labels.isSome ∨
            metadata.provenance.isSome then
          some metadata
        else none
    | _ => none
  | _ => none

end Cxdb
