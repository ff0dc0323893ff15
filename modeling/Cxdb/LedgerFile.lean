import Cxdb.Decimal
import Cxdb.DataDir
import Cxdb.PersistedValue

/-!
# The Ledger of a Session

`cxtx` notes in a ledger what happens in a session, and writes the ledger to `ledger.json` after
every note. The notes come from several tasks. Each one changes the ledger under its lock, takes
the lock again to copy the ledger, and writes the copy without a lock, so that the file can end
with an old copy.

## Main results

* `ledger_persisted`: when the file has the ledger.
* `ledger_left_behind`: two notes after which it does not.
-/

open ByteFormat PersistedValue Transition

namespace Cxdb

/-! ### The ledger -/

structure ExchangeArtifactRecord where
  exchangeId : String
  endpoint : Option String := none
  model : Option String := none
  providerRequestId : Option String := none
  statusCode : Option UInt16 := none
  requestPath : Option String := none
  responsePath : Option String := none
  streamPath : Option String := none
  deriving DecidableEq

/-- `SessionLedger`; instants are in nanoseconds. -/
structure SessionLedger where
  sessionId : String
  providerKind : String
  childCommand : String
  childArgs : List String
  startedAt : ℤ
  endedAt : Option ℤ
  childPid : Option UInt32
  childExitCode : Option Int32
  cxdbContextId : Option UInt64
  deliveryState : String
  queueDepth : ℕ
  appendedSequences : List UInt64
  providerRequestIds : List String
  lastDeliveryError : Option String
  artifactsRoot : String
  exchanges : List ExchangeArtifactRecord
  deriving DecidableEq

namespace SessionLedger

variable (state : SessionLedger)

/-- The ledger that `create` makes. -/
def create (sessionId providerKind childCommand : String) (childArgs : List String)
    (startedAt : ℤ) (artifactsRoot : String) : SessionLedger where
  sessionId := sessionId
  providerKind := providerKind
  childCommand := childCommand
  childArgs := childArgs
  startedAt := startedAt
  endedAt := none
  childPid := none
  childExitCode := none
  cxdbContextId := none
  deliveryState := "starting"
  queueDepth := 0
  appendedSequences := []
  providerRequestIds := []
  lastDeliveryError := none
  artifactsRoot := artifactsRoot
  exchanges := []

def noteChildPid (childPid : Option UInt32) : SessionLedger := { state with childPid }

def noteContextCreated (contextId : UInt64) : SessionLedger :=
  { state with cxdbContextId := some contextId }

def noteAppendSequence (sequence : UInt64) : SessionLedger :=
  if sequence ∈ state.appendedSequences then state
  else { state with appendedSequences := state.appendedSequences ++ [sequence] }

def noteDeliveryState (deliveryState : String) (queueDepth : ℕ) (error : Option String) :
    SessionLedger :=
  { state with deliveryState, queueDepth, lastDeliveryError := error }

def noteRequestId (requestId : String) : SessionLedger :=
  if requestId ∈ state.providerRequestIds then state
  else { state with providerRequestIds := state.providerRequestIds ++ [requestId] }

def noteChildExit (exitCode : Int32) (now : ℤ) : SessionLedger :=
  { state with childExitCode := some exitCode, endedAt := some now }

def finalize (now : ℤ) : SessionLedger := { state with endedAt := some (state.endedAt.getD now) }

/-- Change the first record of an exchange. -/
def changeRecord (exchangeId : String)
    (update : ExchangeArtifactRecord → ExchangeArtifactRecord) :
    List ExchangeArtifactRecord → List ExchangeArtifactRecord
  | [] => []
  | record :: records =>
      if record.exchangeId = exchangeId then update record :: records
      else record :: changeRecord exchangeId update records

/-- `update_exchange`, up to the unlocking: an exchange without a record gets one. -/
def updateExchange (exchangeId : String)
    (update : ExchangeArtifactRecord → ExchangeArtifactRecord) : SessionLedger :=
  let exchanges :=
    if ∃ record ∈ state.exchanges, record.exchangeId = exchangeId then state.exchanges
    else state.exchanges ++ [({ exchangeId := exchangeId } : ExchangeArtifactRecord)]
  { state with exchanges := changeRecord exchangeId update exchanges }

end SessionLedger

/-- What is noted, with the values that the notes are made with. -/
inductive LedgerNote where
  | childPid (childPid : Option UInt32)
  | contextCreated (contextId : UInt64)
  | appendSequence (sequence : UInt64)
  | deliveryState (deliveryState : String) (queueDepth : ℕ) (error : Option String)
  | requestId (requestId : String)
  | childExit (exitCode : Int32) (now : ℤ)
  | finalize (now : ℤ)
  | request (exchangeId endpoint : String) (model : Option String) (path : String)
  | response (exchangeId : String) (statusCode : UInt16) (providerRequestId : Option String)
      (path : String)
  | streamFrame (exchangeId path : String)
  deriving DecidableEq

/-- What a note makes of the ledger. -/
def LedgerNote.apply : LedgerNote → SessionLedger → SessionLedger
  | .childPid pid, state => state.noteChildPid pid
  | .contextCreated contextId, state => state.noteContextCreated contextId
  | .appendSequence sequence, state => state.noteAppendSequence sequence
  | .deliveryState delivery queueDepth error, state =>
      state.noteDeliveryState delivery queueDepth error
  | .requestId id, state => state.noteRequestId id
  | .childExit exitCode now, state => state.noteChildExit exitCode now
  | .finalize now, state => state.finalize now
  | .request exchangeId endpoint model path, state =>
      state.updateExchange exchangeId fun record =>
        { record with endpoint := some endpoint, model, requestPath := some path }
  | .response exchangeId statusCode providerRequestId path, state =>
      state.updateExchange exchangeId fun record =>
        { record with statusCode := some statusCode, providerRequestId, responsePath := some path }
  | .streamFrame exchangeId path, state =>
      state.updateExchange exchangeId fun record => { record with streamPath := some path }

/-! ### The calls on a ledger -/

/-- The ledger, the file and the calls that are under way, told apart by numbers. -/
abbrev LedgerSystem := System ℕ SessionLedger

/-- A step of a call: it makes its note, copies the ledger, or opens `ledger.json`, writes to it
or closes it. Creating the directory or writing the file can fail. -/
abbrev LedgerEvent := PersistedValue.Event ℕ LedgerNote

section

variable (toVecPretty : SessionLedger → Bytes)

/-- What a step does. -/
def LedgerSystem.step (s : LedgerSystem) (e : LedgerEvent) : Option LedgerSystem :=
  System.step LedgerNote.apply toVecPretty s e

/-- A ledger that `create` has written. -/
def LedgerSystem.created (ledger : SessionLedger) : LedgerSystem :=
  System.start toVecPretty ledger

end

/-- **The ledger is in its file** once all calls are done, in every run in which no call opens
the file with the newest copy while others with older ones wait or write, and no call with the
newest copy fails, unless another call is about to take a newer one. -/
theorem ledger_persisted (toVecPretty : SessionLedger → Bytes) {ledger : SessionLedger}
    {es : List LedgerEvent} {s : LedgerSystem}
    (h : Run (Guarded System.InOrder (Steps (LedgerSystem.step toVecPretty)))
      (LedgerSystem.created toVecPretty ledger) es s)
    (hidle : s.Idle) : s.file = toVecPretty s.value :=
  file_of_run h hidle

/-! ### A ledger that is left behind -/

/-- The ledger of a session without arguments. -/
def plainLedger : SessionLedger :=
  .create "s" "openai" "codex" [] 0 ".scratch/cxtx/sessions/s/exchanges"

/-- The JSON of that ledger with a child and a context. -/
def plainLedgerJson (ledger : SessionLedger) : Bytes :=
  utf8Bytes <|
    "\x7b\n  \"session_id\": \"s\",\n  \"provider_kind\": \"openai\",\n" ++
    "  \"child_command\": \"codex\",\n  \"child_args\": [],\n" ++
    "  \"started_at\": \"1970-01-01T00:00:00Z\",\n" ++
    (match ledger.childPid with
      | some childPid => "  \"child_pid\": " ++ Decimal.print childPid.toNat ++ ",\n"
      | none => "") ++
    (match ledger.cxdbContextId with
      | some contextId => "  \"cxdb_context_id\": " ++ Decimal.print contextId.toNat ++ ",\n"
      | none => "") ++
    "  \"delivery_state\": \"starting\",\n  \"queue_depth\": 0,\n" ++
    "  \"appended_sequences\": [],\n  \"provider_request_ids\": [],\n" ++
    "  \"artifacts_root\": \".scratch/cxtx/sessions/s/exchanges\",\n  \"exchanges\": []\n\x7d"

/-- The ledger with the child, and with the child and the context. -/
def childLedger : SessionLedger := plainLedger.noteChildPid (some 7)

def contextLedger : SessionLedger := childLedger.noteContextCreated 1

/-- The steps in which a call writes its copy. -/
def persistSteps (task : ℕ) (ledger : SessionLedger) : List LedgerEvent :=
  [.openFile task, .writePiece task (plainLedgerJson ledger).length, .closeFile task]

/-- One call, alone. -/
def oneCall : List LedgerEvent :=
  [.change 0 (.childPid (some 7)), .copy 0] ++ persistSteps 0 childLedger

/-- Two calls, of which the first one writes its copy last. -/
def twoCalls : List LedgerEvent :=
  [.change 0 (.childPid (some 7)), .copy 0, .change 1 (.contextCreated 1), .copy 1] ++
    persistSteps 1 contextLedger ++ persistSteps 0 childLedger

set_option maxRecDepth 10000 in
/-- The conditions can be met: one call, alone. -/
theorem ledger_persisted_alone :
    ∃ s, Run (Guarded System.InOrder (Steps (LedgerSystem.step plainLedgerJson)))
        (LedgerSystem.created plainLedgerJson plainLedger) oneCall s ∧
      s.file = plainLedgerJson s.value := by
  obtain ⟨s, hrun, hidle⟩ := exists_run_of_foldlM System.InOrder
    (LedgerSystem.step plainLedgerJson) (LedgerSystem.created plainLedgerJson plainLedger)
    oneCall System.Idle (by decide)
  exact ⟨s, hrun, ledger_persisted plainLedgerJson hrun hidle⟩

set_option maxRecDepth 10000 in
/-- **The ledger is left behind** by the file. -/
theorem ledger_left_behind :
    ∃ s, Run (Steps (LedgerSystem.step plainLedgerJson))
        (LedgerSystem.created plainLedgerJson plainLedger) twoCalls s ∧
      s.Idle ∧ s.value = contextLedger ∧ s.file = plainLedgerJson childLedger ∧
      s.file ≠ plainLedgerJson s.value := by
  obtain ⟨s, hrun, h⟩ := exists_run_of_foldlM (fun _ _ => True)
    (LedgerSystem.step plainLedgerJson) (LedgerSystem.created plainLedgerJson plainLedger)
    twoCalls (fun s => s.Idle ∧ s.value = contextLedger ∧ s.file = plainLedgerJson childLedger ∧
      s.file ≠ plainLedgerJson s.value) (by decide)
  exact ⟨s, hrun.of_guarded, h⟩

end Cxdb
