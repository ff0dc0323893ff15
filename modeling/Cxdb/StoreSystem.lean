import Cxdb.StoreParts

/-!
# Runs of the Store

The calls of `Store` that write, with their outcomes: a call returns `Ok` (`acked`),
returns an error (`rejected`), or is cut off when the process dies in one of its writes
(`crashed`). Writing a blob of its own is a request of the server (`PutBlob`) that goes to
the blob store directly.

## Main results

* `Stores.appendTurn_run`: `append_turn` in terms of a put and an append.
* `StoreSystem.step_of_exec`: the steps can be computed.
-/

open ByteFormat FaultyDisk RecordLog Transition

namespace Cxdb

/-! ### Calls -/

/-- A call that changes the stores. -/
inductive StoreCall where
  | createContext (baseTurnId : UInt64)
  | forkContext (baseTurnId : UInt64)
  | appendTurn (r : AppendRequest)
  | putBlob (hash : Hash) (data : Bytes)
  | attachFs (turnId : UInt64) (fsRootHash : Hash)

/-- What a call returns. -/
inductive StoreReply where
  | context (head : ContextHead)
  | turn (record : TurnRecord)
  | blob (hash : Hash) (wasNew : Bool)
  | attached (turnId : UInt64) (fsRootHash : Hash)
  deriving DecidableEq

/-- The `PutBlob` request. -/
def Stores.putBlob (z : Zstd) (blake3 : Bytes → Hash) (hash : Hash) (data : Bytes) :
    StoreM Stores StoreReply := do
  if blake3 data ≠ hash then liftExcept (.error (.invalidInput "blob hash mismatch"))
  else
    let s ← getMem
    let wasNew := !s.blobStore.contains hash
    let _ ← onBlobs (putIfAbsent z hash data)
    return .blob hash wasNew

/-- Run a call at the time `now`. -/
def StoreCall.run (z : Zstd) (blake3 : Bytes → Hash) (now : UInt64) :
    StoreCall → StoreM Stores StoreReply
  | .createContext base => .context <$> Stores.createContext base now
  | .forkContext base => .context <$> Stores.forkContext base now
  | .appendTurn r => .turn <$> Stores.appendTurn z blake3 r now
  | .putBlob hash data => Stores.putBlob z blake3 hash data
  | .attachFs turnId fsRootHash =>
      (fun _ => .attached turnId fsRootHash) <$> Stores.attachFs turnId fsRootHash

/-- The reply of the turn store, as the store passes it on. -/
def TurnReply.toStore : TurnReply → StoreReply
  | .context head => .context head
  | .turn record => .turn record

/-- The call of the turn store that a call makes. -/
def StoreCall.turnCall : StoreCall → Option TurnCall
  | .createContext base => some (.createContext base)
  | .forkContext base => some (.forkContext base)
  | .appendTurn r => some (.appendTurn r.args)
  | .putBlob _ _ | .attachFs _ _ => none

/-- The blob that a call puts, if its checks pass. -/
def StoreCall.blob (z : Zstd) (blake3 : Bytes → Hash) : StoreCall → Option (Hash × Bytes)
  | .appendTurn r => (r.checked z blake3).toOption.map fun raw => (r.contentHash, raw)
  | .putBlob hash data => if blake3 data = hash then some (hash, data) else none
  | .createContext _ | .forkContext _ | .attachFs _ _ => none

/-- **The specification of `append_turn`.** The checks come first, then the put, then the
append. -/
theorem Stores.appendTurn_run (z : Zstd) (blake3 : Bytes → Hash) (r : AppendRequest)
    (now : UInt64) (s : Stores) (d : DataDir) (fault : Option (Fault DataFile)) :
    runCall (Stores.appendTurn z blake3 r now) s d fault =
      match r.checked z blake3 with
      | .error e => (.error e, s, d)
      | .ok raw =>
        match runCall (putIfAbsent z r.contentHash raw) s.blobStore d fault with
        | (.error e, b, d') => (.error e, { s with blobStore := b }, d')
        | (.ok _, b, d') =>
            let o := runCall (Cxdb.appendTurn r.args now) s.turnStore d' fault
            (o.1, { s with blobStore := b, turnStore := o.2.1 }, o.2.2) := by
  rw [Stores.appendTurn, runCall_bind]
  cases hr : r.checked z blake3 with
  | error e => simp [liftExcept]
  | ok raw =>
      simp only [liftExcept, runCall_bind, onBlobs, zoom, putIfAbsent_apply, putIfAbsent_run]
      -- A put that returns has left the fault where it was.
      cases hs : s.blobStore.index.lookup r.contentHash with
      | some entry => exact runCall_zoom _ _ _ _ _ _
      | none =>
          by_cases hstop : putStop fault = none
          · simp only [hstop, if_true]
            exact runCall_zoom _ _ _ _ _ _
          · simp [hstop]

/-! ### Events and steps -/

inductive StoreEvent where
  | opened
  | acked (c : StoreCall) (now : UInt64) (reply : StoreReply)
  | rejected (c : StoreCall) (now : UInt64) (e : StoreError)
  | crashed (c : StoreCall) (now : UInt64) (f : Fault DataFile)

/-- The steps of the store. A rejected append may have put its payload. -/
inductive StoreStep (z : Zstd) (blake3 : Bytes → Hash) :
    StoreSystem → StoreEvent → StoreSystem → Prop
  | opened {p : Option Stores} {d d' : DataDir} {s : Stores} :
      Stores.openDir d = .ok (s, d') → StoreStep z blake3 ⟨p, d⟩ .opened ⟨some s, d'⟩
  | acked {c : StoreCall} {now : UInt64} {reply : StoreReply} {s s' : Stores}
      {d d' : DataDir} :
      runCall (c.run z blake3 now) s d none = (.ok reply, s', d') → d'.Fits →
      StoreStep z blake3 ⟨some s, d⟩ (.acked c now reply) ⟨some s', d'⟩
  | rejected {c : StoreCall} {now : UInt64} {e : StoreError} {s s' : Stores}
      {d d' : DataDir} :
      runCall (c.run z blake3 now) s d none = (.error e, s', d') → d'.Fits →
      StoreStep z blake3 ⟨some s, d⟩ (.rejected c now e) ⟨some s', d'⟩
  | crashed {c : StoreCall} {now : UInt64} {f : Fault DataFile} {s s' : Stores}
      {d d' : DataDir} :
      runCall (c.run z blake3 now) s d (some f) = (.error writeError, s', d') → d'.Fits →
      StoreStep z blake3 ⟨some s, d⟩ (.crashed c now f) ⟨none, d'⟩

/-! ### Computed steps -/

/-- What makes the system step. -/
inductive StoreInput where
  | opening
  | call (c : StoreCall) (now : UInt64)
  | crashing (c : StoreCall) (now : UInt64) (f : Fault DataFile)

/-- The step of the system on an input, if there is one. -/
def StoreSystem.exec (z : Zstd) (blake3 : Bytes → Hash) (m : StoreSystem) :
    StoreInput → Option (StoreEvent × StoreSystem)
  | .opening =>
      match Stores.openDir m.disk with
      | .error _ => none
      | .ok (s, d') => some (.opened, ⟨some s, d'⟩)
  | .call c now => do
      let s ← m.proc
      match runCall (c.run z blake3 now) s m.disk none with
      | (.ok reply, s', d') =>
          if DataDir.Fits d' then some (.acked c now reply, ⟨some s', d'⟩) else none
      | (.error e, s', d') =>
          if DataDir.Fits d' then some (.rejected c now e, ⟨some s', d'⟩) else none
  | .crashing c now f => do
      let s ← m.proc
      match runCall (c.run z blake3 now) s m.disk (some f) with
      | (.ok _, _, _) => none
      | (.error e, _, d') =>
          if e = writeError ∧ DataDir.Fits d' then some (.crashed c now f, ⟨none, d'⟩)
          else none

/-- A computed step is a step. -/
theorem StoreSystem.step_of_exec (z : Zstd) (blake3 : Bytes → Hash) (m : StoreSystem)
    (i : StoreInput) (e : StoreEvent) (m' : StoreSystem)
    (h : m.exec z blake3 i = some (e, m')) : StoreStep z blake3 m e m' := by
  obtain ⟨proc, disk⟩ := m
  cases i with
  | opening =>
      simp only [StoreSystem.exec] at h
      split at h
      · exact absurd h (by simp)
      next ho =>
      obtain ⟨rfl, rfl⟩ := Prod.mk.inj (Option.some.inj h)
      exact .opened ho
  | call c now =>
      obtain ⟨s, rfl, h⟩ := Option.bind_eq_some_iff.mp h
      split at h
      next hrun =>
        split at h
        next hfit =>
          obtain ⟨rfl, rfl⟩ := Prod.mk.inj (Option.some.inj h)
          exact .acked hrun hfit
        · exact absurd h (by simp)
      next hrun =>
        split at h
        next hfit =>
          obtain ⟨rfl, rfl⟩ := Prod.mk.inj (Option.some.inj h)
          exact .rejected hrun hfit
        · exact absurd h (by simp)
  | crashing c now f =>
      obtain ⟨s, rfl, h⟩ := Option.bind_eq_some_iff.mp h
      split at h
      · exact absurd h (by simp)
      next hrun =>
      split at h
      next hfit =>
        obtain ⟨rfl, hfit⟩ := hfit
        obtain ⟨rfl, rfl⟩ := Prod.mk.inj (Option.some.inj h)
        exact .crashed hrun hfit
      · exact absurd h (by simp)

end Cxdb
