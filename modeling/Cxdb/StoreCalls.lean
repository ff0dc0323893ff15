import Cxdb.Store

/-!
# The Outcomes of the Store's Calls

When the calls of the store return `Ok`, and what they leave behind, against every fault.
A call returns `Ok` exactly when its lookups succeed and the fault is in none of the files
that it writes.

## Main results

* `Stores.createContext_outcome`, `Stores.appendTurn_outcome`: the outcome of a call on the
  three stores.
* `Store.appendTurn_run`: `append_turn` in terms of the append to the three stores and of
  `Store.noted`, what it does with the cache and the indexes then.
* `Store.appendTurn_keepsFault`: what comes after an append meets the same fault.
-/

open ByteFormat FaultyDisk

namespace Cxdb

variable {k : Crates}

/-! ### Calls that sync all they write -/

theorem liftExcept_keepsFault {μ α : Type} (x : Except StoreError α) :
    KeepsFault (liftExcept x : StoreM μ α) := by
  intro w a w' h
  cases x with
  | ok b =>
      cases h
      rfl
  | error e => cases h

theorem updateMem_keepsFault {μ α : Type} (f : μ → Except StoreError (α × μ)) :
    KeepsFault (updateMem f : StoreM μ α) := by
  intro w a w' h
  simp only [updateMem] at h
  split at h
  · cases h
    rfl
  · cases h

theorem writeHead_keepsFault (head : ContextHead) : KeepsFault (writeHead head) :=
  (KeepsFault.seekEnd _).bind fun _ => KeepsFault.appendRecord _ _ _

theorem createContext_keepsFault (base now : UInt64) :
    KeepsFault (Cxdb.createContext base now) := by
  refine KeepsFault.getMem.bind fun s => ?_
  refine (liftExcept_keepsFault _).bind fun b => ?_
  refine (KeepsFault.modifyMem _).bind fun _ => ?_
  refine (writeHead_keepsFault _).bind fun _ => ?_
  exact (KeepsFault.modifyMem _).bind fun _ => KeepsFault.pure _

theorem appendTurn_keepsFault (a : AppendArgs) (now : UInt64) :
    KeepsFault (Cxdb.appendTurn a now) := by
  refine KeepsFault.getMem.bind fun s => ?_
  refine (liftExcept_keepsFault _).bind fun p => ?_
  refine (KeepsFault.modifyMem _).bind fun _ => ?_
  refine (KeepsFault.seekEnd _).bind fun offset => ?_
  refine (KeepsFault.appendRecord _ _ _).bind fun _ => ?_
  refine (KeepsFault.seekEnd _).bind fun _ => ?_
  refine (KeepsFault.appendRecord _ _ _).bind fun _ => ?_
  refine (KeepsFault.seekEnd _).bind fun _ => ?_
  refine (KeepsFault.appendRecord _ _ _).bind fun _ => ?_
  refine (KeepsFault.modifyMem _).bind fun _ => ?_
  refine (writeHead_keepsFault _).bind fun _ => ?_
  exact (KeepsFault.modifyMem _).bind fun _ => KeepsFault.pure _

theorem putIfAbsent_keepsFault (z : Zstd) (hash : Hash) (raw : Bytes) :
    KeepsFault (putIfAbsent z hash raw) := by
  rw [putIfAbsent_eq]
  refine KeepsFault.getMem.bind fun s => ?_
  split
  · exact KeepsFault.pure _
  · refine (KeepsFault.seekEnd _).bind fun offset => ?_
    refine (KeepsFault.appendRecord _ _ _).bind fun _ => ?_
    refine (KeepsFault.seekEnd _).bind fun _ => ?_
    refine (KeepsFault.appendRecord _ _ _).bind fun _ => ?_
    exact (KeepsFault.modifyMem _).bind fun _ => KeepsFault.pure _

theorem Stores.appendTurn_keepsFault (z : Zstd) (blake3 : Bytes → Hash) (r : AppendRequest)
    (now : UInt64) : KeepsFault (Stores.appendTurn z blake3 r now) := by
  refine (liftExcept_keepsFault _).bind fun raw => ?_
  refine (KeepsFault.zoom (putIfAbsent_keepsFault _ _ _)).bind fun _ => ?_
  exact KeepsFault.zoom (Cxdb.appendTurn_keepsFault _ _)

theorem Store.appendTurn_keepsFault (r : AppendRequest) (now : UInt64) :
    KeepsFault (Store.appendTurn k r now) := by
  refine (liftExcept_keepsFault _).bind fun raw => ?_
  refine (KeepsFault.zoom (Stores.appendTurn_keepsFault _ _ _ _)).bind fun record => ?_
  exact (updateMem_keepsFault _).bind fun _ => KeepsFault.pure _

/-! ### The three stores -/

/-- The entry that an append writes below the parent `p`. -/
def AppendArgs.entry (a : AppendArgs) (turnId : UInt64) (p : UInt64 × UInt32) (now : UInt64) :
    Entry :=
  { turn := some (a.record turnId p.1 p.2 now, a.turnMeta)
    head := a.head (a.record turnId p.1 p.2 now) }

/-- `append_turn` of the turn store against every fault. -/
theorem appendTurn_outcome (a : AppendArgs) (now : UInt64) (s : TurnStore) (d : DataDir)
    (fault : Option (Fault DataFile)) :
    runCall (Cxdb.appendTurn a now) s d fault =
      match s.parentOf a.contextId a.parentTurnId with
      | .error e => (.error e, s, d)
      | .ok p =>
          let w := a.entry s.nextTurnId p now
          (if w.stop fault = none then .ok (a.record s.nextTurnId p.1 p.2 now)
            else .error writeError,
            s.after w (d .turnsLog).length (w.stop fault), w.onto d (w.stop fault)) := by
  have hrun := appendTurn_run a now s d fault
  rw [TurnCall.run, runCall_map] at hrun
  rcases hx : runCall (Cxdb.appendTurn a now) s d fault with ⟨x, s', d'⟩
  rw [hx] at hrun
  cases hp : s.parentOf a.contextId a.parentTurnId with
  | error e =>
      rw [TurnStore.entryOf, hp] at hrun
      cases x with
      | ok record => cases (Prod.mk.inj hrun).1
      | error e' =>
          cases hrun
          rfl
  | ok p =>
      rw [TurnStore.entryOf, hp] at hrun
      obtain ⟨hreply, hrest⟩ := Prod.mk.inj hrun
      obtain ⟨rfl, rfl⟩ := Prod.mk.inj hrest
      dsimp only [AppendArgs.entry]
      refine Prod.ext ?_ rfl
      split
      all_goals
        next hstop =>
        simp only [hstop, if_true, if_false] at hreply
        cases x with
        | ok record => cases hreply <;> rfl
        | error e => cases hreply <;> rfl

/-- `create_context` of the turn store against every fault. -/
theorem createContext_outcome (base now : UInt64) (s : TurnStore) (d : DataDir)
    (fault : Option (Fault DataFile)) :
    runCall (Cxdb.createContext base now) s d fault =
      match s.baseOf base with
      | .error e => (.error e, s, d)
      | .ok b =>
          let w : Entry := { turn := none, head := ⟨s.nextContextId, b.1, b.2, now, 0⟩ }
          (if w.stop fault = none then .ok w.head else .error writeError,
            s.after w (d .turnsLog).length (w.stop fault), w.onto d (w.stop fault)) := by
  have hrun := createContext_run base now s d fault
  rw [TurnCall.run, runCall_map] at hrun
  rcases hx : runCall (Cxdb.createContext base now) s d fault with ⟨x, s', d'⟩
  rw [hx] at hrun
  cases hb : s.baseOf base with
  | error e =>
      rw [TurnStore.entryOf, hb] at hrun
      cases x with
      | ok head => cases (Prod.mk.inj hrun).1
      | error e' =>
          cases hrun
          rfl
  | ok b =>
      rw [TurnStore.entryOf, hb] at hrun
      obtain ⟨hreply, hrest⟩ := Prod.mk.inj hrun
      obtain ⟨rfl, rfl⟩ := Prod.mk.inj hrest
      refine Prod.ext ?_ rfl
      dsimp only
      split
      all_goals
        next hstop =>
        simp only [hstop, if_true, if_false] at hreply
        cases x with
        | ok head => cases hreply <;> rfl
        | error e => cases hreply <;> rfl

/-- The append gets as far as the turn store and finds its parent there. -/
def AppendRequest.Reaches (z : Zstd) (blake3 : Bytes → Hash) (r : AppendRequest) (s : Stores)
    (fault : Option (Fault DataFile)) : Prop :=
  (∃ raw, r.checked z blake3 = .ok raw) ∧
    (r.contentHash ∈ s.blobStore.index ∨ putStop fault = none) ∧
    ∃ p, s.turnStore.parentOf r.contextId r.parentTurnId = .ok p

/-- **The outcome of an append to the three stores.** An append that does not reach the turn
store leaves the turns alone; one that does puts its entry there as far as it gets. -/
theorem Stores.appendTurn_outcome {z : Zstd} {blake3 : Bytes → Hash} {r : AppendRequest}
    {now : UInt64} {s s' : Stores} {d d' : DataDir} {fault : Option (Fault DataFile)}
    {x : Except StoreError TurnRecord}
    (h : runCall (Stores.appendTurn z blake3 r now) s d fault = (x, s', d')) :
    s'.fsRoots = s.fsRoots ∧
      ((¬r.Reaches z blake3 s fault ∧ (∃ e, x = .error e) ∧ s'.turnStore = s.turnStore) ∨
        (r.Reaches z blake3 s fault ∧ ∃ p len,
          s.turnStore.parentOf r.contextId r.parentTurnId = .ok p ∧
          s'.turnStore = s.turnStore.after (r.args.entry s.turnStore.nextTurnId p now) len
            ((r.args.entry s.turnStore.nextTurnId p now).stop fault) ∧
          x = (if (r.args.entry s.turnStore.nextTurnId p now).stop fault = none then
            .ok (r.args.record s.turnStore.nextTurnId p.1 p.2 now) else .error writeError) ∧
          ∀ hash, hash ∈ s'.blobStore.index ↔
            hash = r.contentHash ∨ hash ∈ s.blobStore.index)) := by
  rw [Stores.appendTurn_run] at h
  cases hr : r.checked z blake3 with
  | error e =>
      rw [hr] at h
      obtain ⟨rfl, rfl, -⟩ := by simpa using h
      refine ⟨rfl, Or.inl ⟨?_, ⟨_, rfl⟩, rfl⟩⟩
      rintro ⟨⟨raw, hraw⟩, -⟩
      rw [hr] at hraw
      cases hraw
  | ok raw =>
      rw [hr] at h
      dsimp only at h
      rw [putIfAbsent_run] at h
      -- The put finds the blob, stores it, or is cut off.
      have hput : (∃ b d₁, (r.contentHash ∈ s.blobStore.index ∨ putStop fault = none) ∧
            (∀ hash, hash ∈ b.index ↔ hash = r.contentHash ∨ hash ∈ s.blobStore.index) ∧
            (x, s', d') =
              (let o := runCall (Cxdb.appendTurn r.args now) s.turnStore d₁ fault
              (o.1, { s with blobStore := b, turnStore := o.2.1 }, o.2.2))) ∨
          (¬(r.contentHash ∈ s.blobStore.index ∨ putStop fault = none) ∧
            x = .error writeError ∧ s' = s) := by
        cases hl : s.blobStore.index.lookup r.contentHash with
        | some entry =>
            rw [hl] at h
            have hmem : r.contentHash ∈ s.blobStore.index :=
              Finmap.mem_iff.mpr ⟨entry, hl⟩
            refine Or.inl ⟨s.blobStore, d, Or.inl hmem, fun hash => ?_, h.symm⟩
            constructor
            · exact Or.inr
            · rintro (rfl | hin)
              · exact hmem
              · exact hin
        | none =>
            rw [hl] at h
            have hmem : r.contentHash ∉ s.blobStore.index := Finmap.lookup_eq_none.mp hl
            by_cases hstop : putStop fault = none
            · rw [if_pos hstop] at h
              refine Or.inl ⟨_, _, Or.inr hstop, fun hash => ?_, h.symm⟩
              exact Finmap.mem_insert
            · rw [if_neg hstop] at h
              obtain ⟨rfl, rfl, -⟩ := by simpa using h
              exact Or.inr ⟨fun hor => hor.elim hmem hstop, rfl, rfl⟩
      rcases hput with ⟨b, d₁, hreach, hindex, hrun⟩ | ⟨hnot, rfl, rfl⟩
      · rw [Cxdb.appendTurn_outcome] at hrun
        cases hp : s.turnStore.parentOf r.contextId r.parentTurnId with
        | error e =>
            rw [AppendRequest.args, hp] at hrun
            obtain ⟨rfl, rfl, -⟩ := by simpa using hrun
            refine ⟨rfl, Or.inl ⟨?_, ⟨_, rfl⟩, rfl⟩⟩
            rintro ⟨-, -, p, hp'⟩
            rw [hp] at hp'
            cases hp'
        | ok p =>
            rw [show s.turnStore.parentOf r.args.contextId r.args.parentTurnId = .ok p from hp]
              at hrun
            obtain ⟨rfl, hrest⟩ := Prod.mk.inj hrun
            obtain ⟨rfl, -⟩ := Prod.mk.inj hrest
            exact ⟨rfl, Or.inr ⟨⟨⟨raw, hr⟩, hreach, p, hp⟩, p, _, rfl, rfl, rfl, hindex⟩⟩
      · exact ⟨rfl, Or.inl ⟨fun hreach => hnot hreach.2.1, ⟨_, rfl⟩, rfl⟩⟩

/-! ### The store -/

/-- What `append_turn` does with the cache and the indexes, when the context has a head. -/
def Store.noted (k : Crates) (s : Store) (contextId : UInt64) (payload : Bytes)
    (createdAtUnixMs : UInt64) (depth : UInt32) : Option ContextMetadata × Store :=
  match s.contextMetadataCache.lookup contextId with
  | some _ => (none, s)
  | none =>
      let metadata := extractContextMetadata k.readValue payload
      (metadata,
        { s with
          contextMetadataCache := s.contextMetadataCache.insert contextId metadata
          secondaryIndexes :=
            if metadata.isSome then
              s.secondaryIndexes.addContext k.unicode contextId metadata createdAtUnixMs depth
            else s.secondaryIndexes })

theorem Store.noteFirst_eq {s : Store} {contextId : UInt64} {payload : Bytes}
    {record : TurnRecord} {head : ContextHead}
    (h : s.stores.turnStore.heads.lookup contextId = some head) :
    s.noteFirst k contextId payload record =
      .ok (s.noted k contextId payload head.createdAtUnixMs record.depth) := by
  have hhead : s.stores.turnStore.getHead contextId = .ok head := by
    rw [TurnStore.getHead, h]
  unfold Store.noteFirst Store.noted Store.maybeCacheMetadata
  cases s.contextMetadataCache.lookup contextId with
  | some cached => rfl
  | none =>
      dsimp only
      cases extractContextMetadata k.readValue payload with
      | none => rfl
      | some m =>
          simp only [Option.isSome_some, if_true, hhead, bind, Except.bind, pure, Except.pure]

/-- Noting a context does not touch the three stores. -/
@[simp] theorem Store.noted_stores (s : Store) (contextId : UInt64) (payload : Bytes)
    (createdAtUnixMs : UInt64) (depth : UInt32) :
    (s.noted k contextId payload createdAtUnixMs depth).2.stores = s.stores := by
  unfold Store.noted
  split <;> rfl

theorem onStores_keepsFault {α : Type} {x : StoreM Stores α} (h : KeepsFault x) :
    KeepsFault (onStores x) :=
  KeepsFault.zoom h

/-- A call of the three stores. -/
theorem onStores_run {α : Type} (x : StoreM Stores α) (s : Store) (d : DataDir)
    (fault : Option (Fault DataFile)) :
    runCall (onStores x) s d fault =
      ((runCall x s.stores d fault).1, { s with stores := (runCall x s.stores d fault).2.1 },
        (runCall x s.stores d fault).2.2) :=
  runCall_zoom _ _ _ _ _ _

/-- An append that returns has moved the head of its context. -/
theorem Stores.head_of_appendTurn {z : Zstd} {blake3 : Bytes → Hash} {r : AppendRequest}
    {now : UInt64} {s s' : Stores} {d d' : DataDir} {fault : Option (Fault DataFile)}
    {record : TurnRecord}
    (h : runCall (Stores.appendTurn z blake3 r now) s d fault = (.ok record, s', d')) :
    s'.turnStore.heads.lookup r.contextId = some (r.args.head record) := by
  obtain ⟨-, ⟨-, ⟨e, he⟩, -⟩ | ⟨-, p, len, -, hafter, hx, -⟩⟩ := Stores.appendTurn_outcome h
  · cases he
  · split at hx
    next hstop =>
      obtain rfl := Except.ok.inj hx
      rw [hafter, hstop]
      exact Finmap.lookup_insert _
    · cases hx

/-- **The specification of `append_turn`.** It is the append to the three stores, and then,
if that returns, the cache and the indexes. -/
theorem Store.appendTurn_run (r : AppendRequest) (now : UInt64) (s : Store) (d : DataDir)
    (fault : Option (Fault DataFile)) :
    runCall (Store.appendTurn k r now) s d fault =
      match runCall (Stores.appendTurn k.zstd k.blake3 r now) s.stores d fault with
      | (.error e, stores, d') => (.error e, { s with stores }, d')
      | (.ok record, stores, d') =>
          match r.checked k.zstd k.blake3 with
          | .error e => (.error e, s, d)
          | .ok raw =>
              let noted := { s with stores }.noted k r.contextId raw record.createdAtUnixMs
                record.depth
              (.ok (record, noted.1), noted.2, d') := by
  rw [Store.appendTurn, (liftExcept_keepsFault _).runCall_bind]
  cases hr : r.checked k.zstd k.blake3 with
  | error e => rw [Stores.appendTurn_run, hr]; rfl
  | ok raw =>
      have hlift : runCall (liftExcept (.ok raw) : StoreM Store Bytes) s d fault =
          (.ok raw, s, d) := rfl
      rw [hlift]
      dsimp only
      rw [(onStores_keepsFault (Stores.appendTurn_keepsFault _ _ _ _)).runCall_bind,
        onStores_run]
      rcases hx : runCall (Stores.appendTurn k.zstd k.blake3 r now) s.stores d fault with
        ⟨e | record, stores, d'⟩
      · rfl
      · dsimp only
        rw [(updateMem_keepsFault _).runCall_bind]
        have hnote : Store.noteFirst k { s with stores } r.contextId raw record =
            .ok (Store.noted k { s with stores } r.contextId raw record.createdAtUnixMs
              record.depth) :=
          Store.noteFirst_eq (Stores.head_of_appendTurn hx)
        have hupdate : runCall (updateMem fun s => s.noteFirst k r.contextId raw record)
            { s with stores } d' fault =
            (.ok (Store.noted k { s with stores } r.contextId raw record.createdAtUnixMs
                record.depth).1,
              (Store.noted k { s with stores } r.contextId raw record.createdAtUnixMs
                record.depth).2, d') := by
          simp only [runCall, updateMem, hnote]
        rw [hupdate]
        rfl

/-! ### When a call returns -/

/-- The fault is in none of these files. -/
def Spares (fault : Option (Fault DataFile)) (files : List DataFile) : Prop :=
  ∀ f ∈ fault, f.file ∉ files

instance (fault : Option (Fault DataFile)) (files : List DataFile) :
    Decidable (Spares fault files) := by
  unfold Spares
  infer_instance

theorem Entry.stop_eq_none (w : Entry) (fault : Option (Fault DataFile)) :
    w.stop fault = none ↔ Spares fault w.files := by
  cases fault with
  | none => simp [Entry.stop, Spares]
  | some f => simp [Entry.stop, Spares]

theorem putStop_eq_none {fault : Option (Fault DataFile)} :
    putStop fault = none ↔ Spares fault blobFiles := by
  cases fault with
  | none => simp [putStop, Spares]
  | some f => simp [putStop, Spares, blobFiles]

/-- `create_context` and `fork_context` return when their base is there and `heads.tbl` can
be written. -/
theorem Stores.createContext_isOk (base now : UInt64) (s : Stores) (d : DataDir)
    (fault : Option (Fault DataFile)) :
    (∃ head, (runCall (Stores.createContext base now) s d fault).1 = .ok head) ↔
      (∃ b, s.turnStore.baseOf base = .ok b) ∧ Spares fault [.headsTbl] := by
  rw [Stores.createContext, onTurns, runCall_zoom, Cxdb.createContext_outcome]
  cases hb : s.turnStore.baseOf base with
  | error e => simp
  | ok b =>
      dsimp only
      have hstop := Entry.stop_eq_none
        { turn := none, head := ⟨s.turnStore.nextContextId, b.1, b.2, now, 0⟩ } fault
      rw [Entry.files] at hstop
      dsimp only at hstop
      rw [← hstop]
      split
      next h => simp [h]
      next h => simp [h]

/-- `append_turn` returns when it reaches the turn store and the files there can be written. -/
theorem Stores.appendTurn_isOk (z : Zstd) (blake3 : Bytes → Hash) (r : AppendRequest)
    (now : UInt64) (s : Stores) (d : DataDir) (fault : Option (Fault DataFile)) :
    (∃ record, (runCall (Stores.appendTurn z blake3 r now) s d fault).1 = .ok record) ↔
      r.Reaches z blake3 s fault ∧ Spares fault turnFiles := by
  rcases hrun : runCall (Stores.appendTurn z blake3 r now) s d fault with ⟨x, s', d'⟩
  obtain ⟨-, ⟨hnot, ⟨e, rfl⟩, -⟩ | ⟨hreach, p, len, -, -, hx, -⟩⟩ :=
    Stores.appendTurn_outcome hrun
  · simp [hnot]
  · have hstop := Entry.stop_eq_none (r.args.entry s.turnStore.nextTurnId p now) fault
    rw [show (r.args.entry s.turnStore.nextTurnId p now).files = turnFiles from rfl] at hstop
    rw [hx, ← hstop]
    split
    next h => exact ⟨fun _ => ⟨hreach, h⟩, fun _ => ⟨_, rfl⟩⟩
    next h =>
      constructor
      · rintro ⟨_, ⟨⟩⟩
      · rintro ⟨-, h'⟩
        exact absurd h' h

/-- `attach_fs` returns when the turn and the tree are there and the record can be written. -/
theorem Stores.attachFs_isOk (turnId : UInt64) (fsRootHash : Hash) (s : Stores) (d : DataDir)
    (fault : Option (Fault DataFile)) :
    (∃ u, (runCall (Stores.attachFs turnId fsRootHash) s d fault).1 = .ok u) ↔
      turnId ∈ s.turnStore.turns ∧ fsRootHash ∈ s.blobStore.index ∧ rootStop fault = none := by
  rw [Stores.attachFs_run, TurnStore.getTurn]
  cases hl : s.turnStore.turns.lookup turnId with
  | none =>
      have hmem : turnId ∉ s.turnStore.turns := Finmap.lookup_eq_none.mp hl
      simp [hmem]
  | some t =>
      have hmem : turnId ∈ s.turnStore.turns := Finmap.mem_iff.mpr ⟨t, hl⟩
      dsimp only
      by_cases hblob : fsRootHash ∈ s.blobStore.index
      · by_cases hstop : rootStop fault = none <;>
          simp [BlobStore.contains, hmem, hblob, hstop]
      · simp [BlobStore.contains, hblob]

/-- A put returns when the blob is there or the files can be written. -/
theorem putIfAbsent_isOk (z : Zstd) (hash : Hash) (raw : Bytes) (s : BlobStore) (d : DataDir)
    (fault : Option (Fault DataFile)) :
    (∃ entry, (runCall (putIfAbsent z hash raw) s d fault).1 = .ok entry) ↔
      hash ∈ s.index ∨ putStop fault = none := by
  rw [putIfAbsent_run]
  cases hl : s.index.lookup hash with
  | some entry =>
      have hmem : hash ∈ s.index := Finmap.mem_iff.mpr ⟨entry, hl⟩
      simp [hmem]
  | none =>
      have hmem : hash ∉ s.index := Finmap.lookup_eq_none.mp hl
      by_cases hstop : putStop fault = none <;> simp [hmem, hstop]

end Cxdb
