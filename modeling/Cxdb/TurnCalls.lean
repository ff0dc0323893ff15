import Cxdb.TurnStore

/-!
# The Calls of the Turn Store

`create_context`, `fork_context` and `append_turn` as one type of calls, and what each of
them does against every fault, in one statement.

A call first decides what to write: nothing, if a lookup fails, or an `Entry`, which is a
context head and for an append also a turn with its metadata. `TurnStore.entryOf` is this
decision. The rest of the call writes the entry to the files, in a fixed order, and puts
it into the maps as it goes; the fault says how far it gets.

## Main results

* `TurnCall.run_eq`: the outcome of a call, the store and the files after it, for every
  fault.
-/

open ByteFormat FaultyDisk

namespace Cxdb

/-- A call that changes the turn store. -/
inductive TurnCall where
  | createContext (baseTurnId : UInt64)
  | forkContext (baseTurnId : UInt64)
  | appendTurn (args : AppendArgs)

/-- What a call returns. -/
inductive TurnReply where
  | context (head : ContextHead)
  | turn (record : TurnRecord)
  deriving DecidableEq

/-- Run a call at the time `now`. -/
def TurnCall.run (now : UInt64) : TurnCall → StoreM TurnStore TurnReply
  | .createContext base => .context <$> Cxdb.createContext base now
  | .forkContext base => .context <$> Cxdb.forkContext base now
  | .appendTurn a => .turn <$> Cxdb.appendTurn a now

/-! ### What a call writes -/

/-- What a call writes: a context head, and the turn it names if the call appends one. -/
structure Entry where
  turn : Option (TurnRecord × TurnMeta)
  head : ContextHead

/-- What a call returns when it gets to the end. -/
def Entry.reply (w : Entry) : TurnReply :=
  match w.turn with
  | none => .context w.head
  | some (record, _) => .turn record

/-- The files a call writes to. -/
def Entry.files (w : Entry) : List DataFile :=
  match w.turn with
  | none => [.headsTbl]
  | some _ => [.turnsLog, .turnsIdx, .turnsMeta, .headsTbl]

/-- The bytes a call writes to each file; the log has `offset` bytes before it. -/
def Entry.bytes (w : Entry) (offset : ℕ) : DataFile → Bytes
  | .turnsLog => (w.turn.map fun t => encodeTurnRecord t.1).getD []
  | .turnsIdx =>
      (w.turn.map fun t => u64Bytes t.1.turnId ++ u64Bytes (UInt64.ofNat offset)).getD []
  | .turnsMeta => (w.turn.map fun t => encodeTurnMeta (t.1.turnId, t.2)).getD []
  | .headsTbl => encodeContextHead w.head
  | _ => []

/-- The decision a call makes before it writes. -/
def TurnStore.entryOf (s : TurnStore) (now : UInt64) : TurnCall → Except StoreError Entry
  | .createContext base | .forkContext base =>
      (s.baseOf base).map fun b =>
        { turn := none
          head :=
            { contextId := s.nextContextId, headTurnId := b.1, headDepth := b.2,
              createdAtUnixMs := now, flags := 0 } }
  | .appendTurn a =>
      (s.parentOf a.contextId a.parentTurnId).map fun p =>
        { turn := some (a.record s.nextTurnId p.1 p.2 now, a.turnMeta)
          head := a.head (a.record s.nextTurnId p.1 p.2 now) }

/-! ### What a call does to the maps -/

/-- Take the id. -/
def TurnStore.takeId (s : TurnStore) (w : Entry) : TurnStore :=
  match w.turn with
  | none => { s with nextContextId := s.nextContextId + 1 }
  | some _ => { s with nextTurnId := s.nextTurnId + 1 }

/-- Put the turn, if there is one, into the maps. -/
def TurnStore.addTurn (s : TurnStore) (w : Entry) (offset : ℕ) : TurnStore :=
  match w.turn with
  | none => s
  | some (record, turnMeta) =>
      { s with
        turnMeta := s.turnMeta.insert record.turnId turnMeta
        turns := s.turns.insert record.turnId record
        turnIndex := s.turnIndex.insert record.turnId (UInt64.ofNat offset) }

/-- Move the head of the context. -/
def TurnStore.addHead (s : TurnStore) (w : Entry) : TurnStore :=
  { s with heads := s.heads.insert w.head.contextId w.head }

/-- The fault, if it is in a file the call writes to. -/
def Entry.stop (w : Entry) : Option (Fault DataFile) → Option (Fault DataFile)
  | none => none
  | some f => if f.file ∈ w.files then some f else none

/-- The maps after a call that stops at `stop`: the turn is added before the head is
written, and the head after. -/
def TurnStore.after (s : TurnStore) (w : Entry) (offset : ℕ)
    (stop : Option (Fault DataFile)) : TurnStore :=
  match stop with
  | none => ((s.takeId w).addTurn w offset).addHead w
  | some f =>
      if f.file = .headsTbl then (s.takeId w).addTurn w offset else s.takeId w

/-! ### The outcome of a call -/

/-- The files after a call that stops at `stop`. -/
def Entry.onto (w : Entry) (d : DataDir) (stop : Option (Fault DataFile)) : DataDir :=
  fun file => d file ++ written stop file (w.bytes (d .turnsLog).length file)

/-- The outcome of a call that gets as far as writing `w`. -/
def Entry.outcome (w : Entry) (s : TurnStore) (d : DataDir)
    (fault : Option (Fault DataFile)) : Except StoreError TurnReply × TurnStore × DataDir :=
  (if w.stop fault = none then .ok w.reply else .error writeError,
    s.after w (d .turnsLog).length (w.stop fault), w.onto d (w.stop fault))

/-- `create_context` against every fault. -/
theorem createContext_run (base now : UInt64) (s : TurnStore) (d : DataDir)
    (fault : Option (Fault DataFile)) :
    runCall (TurnCall.run now (.createContext base)) s d fault =
      match s.entryOf now (.createContext base) with
      | .error e => (.error e, s, d)
      | .ok w => w.outcome s d fault := by
  cases hb : s.baseOf base with
  | error e =>
      simp [runCall, TurnCall.run, createContext, bind, EStateM.bind, getMem, liftExcept, hb,
        TurnStore.entryOf, Functor.map, EStateM.map, Except.map]
  | ok b =>
      have hstep : ∀ fault, runCall (TurnCall.run now (.createContext base)) s d fault =
          Entry.outcome ⟨none, ⟨s.nextContextId, b.1, b.2, now, 0⟩⟩ s d fault := by
        rintro (_ | ⟨file, n⟩)
        · simp [runCall, TurnCall.run, createContext, bind, EStateM.bind, getMem, liftExcept,
            hb, Functor.map, EStateM.map, seekEnd, writeHead, modifyMem, pure, EStateM.pure,
            Entry.outcome, Entry.stop, TurnStore.after, TurnStore.takeId, TurnStore.addTurn,
            TurnStore.addHead, Entry.reply]
          funext file
          cases file <;> simp [Function.update, Entry.bytes, Entry.onto]
        · cases file <;>
            simp [runCall, TurnCall.run, createContext, bind, EStateM.bind, getMem,
              liftExcept, hb, Functor.map, EStateM.map, seekEnd, writeHead, modifyMem, pure,
              EStateM.pure, Entry.outcome, Entry.stop, Entry.files, TurnStore.after,
              TurnStore.takeId, TurnStore.addTurn, TurnStore.addHead, Entry.reply] <;>
            funext file <;>
            cases file <;>
            simp [Function.update, Entry.bytes, Entry.onto, written, DataFile.rank]
      rw [hstep]
      simp [TurnStore.entryOf, hb, Except.map]

/-- `append_turn` against every fault. -/
theorem appendTurn_run (a : AppendArgs) (now : UInt64) (s : TurnStore) (d : DataDir)
    (fault : Option (Fault DataFile)) :
    runCall (TurnCall.run now (.appendTurn a)) s d fault =
      match s.entryOf now (.appendTurn a) with
      | .error e => (.error e, s, d)
      | .ok w => w.outcome s d fault := by
  cases hp : s.parentOf a.contextId a.parentTurnId with
  | error e =>
      simp [runCall, TurnCall.run, appendTurn, bind, EStateM.bind, getMem, liftExcept, hp,
        TurnStore.entryOf, Functor.map, EStateM.map, Except.map]
  | ok p =>
      have hstep : ∀ fault, runCall (TurnCall.run now (.appendTurn a)) s d fault =
          Entry.outcome ⟨some (a.record s.nextTurnId p.1 p.2 now, a.turnMeta),
            a.head (a.record s.nextTurnId p.1 p.2 now)⟩ s d fault := by
        rintro (_ | ⟨file, n⟩)
        · simp [runCall, TurnCall.run, appendTurn, bind, EStateM.bind, getMem, liftExcept,
            hp, Functor.map, EStateM.map, seekEnd, writeHead, modifyMem, pure, EStateM.pure,
            Entry.outcome, Entry.stop, TurnStore.after, TurnStore.takeId, TurnStore.addTurn,
            TurnStore.addHead, Entry.reply, AppendArgs.record, AppendArgs.head]
          funext file
          cases file <;> simp [Function.update, Entry.bytes, Entry.onto]
        · cases file <;>
            simp [runCall, TurnCall.run, appendTurn, bind, EStateM.bind, getMem,
              liftExcept, hp, Functor.map, EStateM.map, seekEnd, writeHead, modifyMem, pure,
              EStateM.pure, Entry.outcome, Entry.stop, Entry.files, TurnStore.after,
              TurnStore.takeId, TurnStore.addTurn, TurnStore.addHead, Entry.reply,
              AppendArgs.record, AppendArgs.head] <;>
            funext file <;>
            cases file <;>
            simp [Function.update, Entry.bytes, Entry.onto, written, DataFile.rank]
      rw [hstep]
      simp [TurnStore.entryOf, hp, Except.map]

/-- **The specification of a call.** A failed lookup changes nothing. Otherwise the entry
goes to the files up to the fault, and into the maps as far as the call gets; the call
returns `Ok` exactly when the fault is in none of its files. -/
theorem TurnCall.run_eq (c : TurnCall) (now : UInt64) (s : TurnStore) (d : DataDir)
    (fault : Option (Fault DataFile)) :
    runCall (c.run now) s d fault =
      match s.entryOf now c with
      | .error e => (.error e, s, d)
      | .ok w => w.outcome s d fault := by
  cases c with
  | createContext base => exact createContext_run base now s d fault
  | forkContext base => exact createContext_run base now s d fault
  | appendTurn a => exact appendTurn_run a now s d fault

end Cxdb
