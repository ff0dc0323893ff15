import Cxdb.DamagedLogs
import Cxdb.ForkIsolation

/-!
# Inherited Snapshot Roots

A snapshot root is attached to a turn, and the turns below it inherit it: `get_inherited` walks
up the parents to the nearest turn that has one. The walk ends because parents have smaller
ids, and what it finds is what was attached last as long as the log of turns and the file of
roots keep what they are given.

## Main results

* `FsRootIs.of_chain`: the walk finds the nearest root on the history of a turn.
* `Stores.Rooted.inherits`: what attachments, appends and forks make of it.
* `RootsKept.step`: a step keeps the roots in memory and in their file.
* `roots_inherited`: inherited roots in every state of every run that writes no turn and no
  root behind a torn record.
* `reattached_root_lost`: a root that is attached behind three bytes is inherited by nobody
  after the next opening.
-/

open ByteFormat FaultyDisk RecordLog LastWrite Transition ParentChain

namespace Cxdb

/-! ### The walk -/

/-- The loop of `get_inherited`, which ends when it has no fuel left; it has nothing then. -/
def FsRootsIndex.inheritedLoop (roots : FsRootsIndex) (turnStore : TurnStore) :
    ℕ → UInt64 → Option (Option Hash)
  | 0, _ => none
  | fuel + 1, current =>
      if current = 0 then some none
      else
        match turnStore.getTurn current with
        | .error _ => some none
        | .ok turn =>
          match roots.get turn.turnId with
          | some hash => some (some hash)
          | none => roots.inheritedLoop turnStore fuel turn.parentTurnId

/-- `get_inherited`. -/
def FsRootsIndex.getInherited (roots : FsRootsIndex) (turnId : UInt64) (turnStore : TurnStore)
    (fuel : ℕ) : Option (Option Hash) :=
  match roots.get turnId with
  | some hash => some (some hash)
  | none => roots.inheritedLoop turnStore fuel turnId

/-- `get_fs_root`. -/
def Stores.getFsRoot (s : Stores) (turnId : UInt64) (fuel : ℕ) : Option (Option Hash) :=
  s.fsRoots.getInherited turnId s.turnStore fuel

/-- `get_fs_root` ends, with a root or with none. -/
def Stores.FsRootIs (s : Stores) (turnId : UInt64) (root : Option Hash) : Prop :=
  ∃ n, ∀ fuel, n < fuel → s.getFsRoot turnId fuel = some root

theorem Stores.FsRootIs.unique {s : Stores} {turnId : UInt64} {root root' : Option Hash}
    (h : s.FsRootIs turnId root) (h' : s.FsRootIs turnId root') : root = root' := by
  obtain ⟨n, hn⟩ := h
  obtain ⟨n', hn'⟩ := h'
  exact Option.some.inj
    ((hn (n + n' + 1) (by omega)).symm.trans (hn' (n + n' + 1) (by omega)))

/-- The first root on a history. -/
def firstRoot (root : UInt64 → Option Hash) (history : List TurnRecord) : Option Hash :=
  history.findSome? fun turn => root turn.turnId

/-- The loop finds the first root on the history. -/
theorem FsRootsIndex.inheritedLoop_of_chain {roots : FsRootsIndex} {turnStore : TurnStore}
    {k : UInt64} {vs : List TurnRecord} (h : Chain turnStore.forest k vs) {fuel : ℕ}
    (hfuel : vs.length < fuel) :
    roots.inheritedLoop turnStore fuel k = some (firstRoot roots.get vs) := by
  induction h generalizing fuel with
  | root =>
      obtain ⟨fuel, rfl⟩ : ∃ n, fuel = n + 1 := ⟨fuel - 1, by omega⟩
      simp [inheritedLoop, TurnStore.forest, firstRoot]
  | @node k v vs hne hget _ ih =>
      obtain ⟨fuel, rfl⟩ : ∃ n, fuel = n + 1 := ⟨fuel - 1, by omega⟩
      simp only [TurnStore.forest] at hne hget ih
      simp only [List.length_cons] at hfuel
      have hturn : turnStore.getTurn k = .ok v := by rw [TurnStore.getTurn, hget]
      simp only [inheritedLoop, if_neg hne, hturn, firstRoot, List.findSome?_cons]
      cases roots.get v.turnId with
      | some hash => rfl
      | none => exact ih (show vs.length < fuel by omega)

/-- Without a root of its own. -/
theorem Stores.FsRootIs.of_unattached {s : Stores} {k : UInt64} {vs : List TurnRecord}
    (h : Chain s.turnStore.forest k vs) (hroot : s.fsRoots.get k = none) :
    s.FsRootIs k (firstRoot s.fsRoots.get vs) := by
  refine ⟨vs.length, fun fuel hfuel => ?_⟩
  rw [getFsRoot, FsRootsIndex.getInherited, hroot]
  exact FsRootsIndex.inheritedLoop_of_chain h hfuel

/-- **A turn inherits** the first root on its history. -/
theorem Stores.FsRootIs.of_chain {s : Stores} {k : UInt64} {vs : List TurnRecord}
    (h : Chain s.turnStore.forest k vs) (hzero : s.fsRoots.get 0 = none)
    (hid : ∀ k r, s.turnStore.turns.lookup k = some r → r.turnId = k) :
    s.FsRootIs k (firstRoot s.fsRoots.get vs) := by
  cases hroot : s.fsRoots.get k with
  | none => exact .of_unattached h hroot
  | some hash =>
      refine ⟨0, fun fuel _ => ?_⟩
      rw [getFsRoot, FsRootsIndex.getInherited, hroot]
      cases h with
      | root =>
          rw [TurnStore.forest, hzero] at hroot
          cases hroot
      | node hne hget _ => rw [firstRoot, List.findSome?_cons, hid _ _ hget, hroot]

/-- A turn that is not stored inherits nothing. -/
theorem Stores.FsRootIs.of_unknown {s : Stores} {k : UInt64} (h : k ∉ s.turnStore.turns)
    (hroot : s.fsRoots.get k = none) : s.FsRootIs k none := by
  refine ⟨0, fun fuel hfuel => ?_⟩
  obtain ⟨fuel, rfl⟩ : ∃ n, fuel = n + 1 := ⟨fuel - 1, by omega⟩
  rw [getFsRoot, FsRootsIndex.getInherited, hroot]
  simp only [FsRootsIndex.inheritedLoop, TurnStore.getTurn, Finmap.lookup_eq_none.mpr h,
    ite_self]

/-! ### Attaching a root -/

/-- A turn of a history is found from below: no turn before it has a root. -/
def Uncovered (root : UInt64 → Option Hash) (turnId : UInt64) (history : List TurnRecord) :
    Prop :=
  turnId ∈ history.map (·.turnId) ∧
    ∀ turn ∈ history.takeWhile (·.turnId ≠ turnId), root turn.turnId = none

instance (root : UInt64 → Option Hash) (turnId : UInt64) (history : List TurnRecord) :
    Decidable (Uncovered root turnId history) :=
  inferInstanceAs (Decidable (_ ∧ _))

/-- **The first root after one is attached**: that one where it is found, and the same as
before elsewhere. -/
theorem firstRoot_insert (roots : HashMap UInt64 Hash) (turnId : UInt64) (hash : Hash)
    (history : List TurnRecord) :
    firstRoot (FsRootsIndex.get ⟨roots.insert turnId hash⟩) history =
      if Uncovered (FsRootsIndex.get ⟨roots⟩) turnId history then some hash
      else firstRoot (FsRootsIndex.get ⟨roots⟩) history := by
  induction history with
  | nil => simp [firstRoot, Uncovered]
  | cons turn history ih =>
      simp only [firstRoot, Uncovered, List.findSome?_cons, List.map_cons, List.mem_cons,
        FsRootsIndex.get, lookup_insert, List.takeWhile_cons] at ih ⊢
      by_cases hturn : turn.turnId = turnId
      · simp [hturn]
      · rw [if_neg hturn]
        cases hroot : roots.lookup turn.turnId with
        | some hash' => simp [hturn, hroot]
        | none => simp [hturn, hroot, ih, Ne.symm hturn]

/-! ### Sound stores -/

/-- Turns have their parents, roots are attached to stored turns, and the next turn has an
id. -/
structure Stores.Rooted (s : Stores) : Prop where
  parented : s.turnStore.Parented
  counter : s.turnStore.nextTurnId ≠ 0
  known : ∀ k, (s.fsRoots.get k).isSome → k ∈ s.turnStore.turns

namespace Stores.Rooted

variable {z : Zstd} {blake3 : Bytes → Hash} {s s' : Stores} {d d' : DataDir}
  {fault : Option (Fault DataFile)}

theorem get_of_notMem (h : s.Rooted) {k : UInt64} (hk : k ∉ s.turnStore.turns) :
    s.fsRoots.get k = none := by
  cases hroot : s.fsRoots.get k with
  | none => rfl
  | some hash => exact absurd (h.known k (by rw [hroot]; rfl)) hk

theorem get_zero (h : s.Rooted) : s.fsRoots.get 0 = none :=
  h.get_of_notMem (Finmap.lookup_eq_none.mp h.parented.zero)

/-- A turn inherits the first root on its history. -/
theorem fsRootIs (h : s.Rooted) {k : UInt64} {vs : List TurnRecord}
    (hvs : Chain s.turnStore.forest k vs) : s.FsRootIs k (firstRoot s.fsRoots.get vs) :=
  .of_chain hvs h.get_zero h.parented.turnId

/-- Stored turns have histories. -/
theorem exists_chain (h : s.Rooted) {k : UInt64} (hk : k ∈ s.turnStore.turns) :
    ∃ vs, Chain s.turnStore.forest k vs := by
  obtain ⟨r, hr⟩ := Finmap.mem_iff.mp hk
  exact ParentChain.exists_chain h.parented.closed
    (Or.inr (Option.isSome_iff_exists.mpr ⟨r, hr⟩))

/-- **Attaching a root** changes what is inherited where the turn is the first with a root, now
or before, on a history; so it does not in another branch, nor above the turn. -/
theorem attach (h : s.Rooted) {turnId : UInt64} {hash : Hash}
    (hrun : runCall (Stores.attachFs turnId hash) s d fault = (.ok (), s', d')) :
    s'.turnStore = s.turnStore ∧ s'.Rooted ∧
      ∀ k vs, Chain s.turnStore.forest k vs →
        s'.FsRootIs k (if Uncovered s.fsRoots.get turnId vs then some hash
          else firstRoot s.fsRoots.get vs) := by
  obtain ⟨hmem, -, hturns, -, hroots, -⟩ := attachFs_cases hrun (Or.inl rfl)
  have hroots := hroots rfl
  have hrooted : s'.Rooted := by
    refine ⟨by rw [hturns]; exact h.parented, by rw [hturns]; exact h.counter, fun k hk => ?_⟩
    rw [hturns]
    rw [hroots, FsRootsIndex.get, lookup_insert] at hk
    split at hk
    next heq => exact heq ▸ hmem
    next => exact h.known k hk
  refine ⟨hturns, hrooted, fun k vs hvs => ?_⟩
  have hroot := hrooted.fsRootIs (hturns ▸ hvs)
  rwa [hroots, firstRoot_insert] at hroot

/-- More turns without a root of their own leave what is inherited alone. -/
theorem fsRootIs_mono (h : s.Rooted) (hroots : s'.fsRoots = s.fsRoots)
    (hturns : ∀ k r, s.turnStore.turns.lookup k = some r → s'.turnStore.turns.lookup k = some r)
    (hid : ∀ k r, s'.turnStore.turns.lookup k = some r → r.turnId = k) {k : UInt64}
    (hk : Known s.turnStore.forest k) {root : Option Hash} (hroot : s.FsRootIs k root) :
    s'.FsRootIs k root := by
  obtain ⟨vs, hvs⟩ := ParentChain.exists_chain h.parented.closed hk
  obtain rfl := hroot.unique (h.fsRootIs hvs)
  have hvs' : Chain s'.turnStore.forest k vs := by refine hvs.mono hturns ?_ ?_ <;> rfl
  rw [← hroots]
  exact .of_chain hvs' (hroots ▸ h.get_zero) hid

/-- **An appended turn** inherits what its parent does, and the others what they did. -/
theorem append (h : s.Rooted) {r : AppendRequest} {now : UInt64} {record : TurnRecord}
    (hrun : runCall (Stores.appendTurn z blake3 r now) s d fault = (.ok record, s', d')) :
    (∀ root, s.FsRootIs record.parentTurnId root → s'.FsRootIs record.turnId root) ∧
      ∀ k ∈ s.turnStore.turns, ∀ root, s.FsRootIs k root → s'.FsRootIs k root := by
  obtain ⟨hroots, ⟨-, ⟨e, he⟩, -⟩ | ⟨-, p, len, hp, hturnStore, hx, -⟩⟩ :=
    Stores.appendTurn_outcome hrun
  · cases he
  split at hx
  case isFalse => cases hx
  next hstop =>
  obtain rfl := Except.ok.inj hx
  rw [hstop] at hturnStore
  have hturns : s'.turnStore.turns = s.turnStore.turns.insert s.turnStore.nextTurnId
      (r.args.record s.turnStore.nextTurnId p.1 p.2 now) := by
    rw [hturnStore]
    exact (after_none_maps s.turnStore _ len).1
  have hmono : ∀ k t, s.turnStore.turns.lookup k = some t →
      s'.turnStore.turns.lookup k = some t := by
    intro k t ht
    rw [hturns]
    have hid : (r.args.record s.turnStore.nextTurnId p.1 p.2 now).turnId =
        s.turnStore.nextTurnId := rfl
    exact h.parented.lookup_insert hid ht
  have hid : ∀ k t, s'.turnStore.turns.lookup k = some t → t.turnId = k := by
    intro k t ht
    rw [hturns, lookup_insert] at ht
    split at ht
    next hk =>
      rw [← Option.some.inj ht, hk]
      rfl
    next => exact h.parented.turnId k t ht
  refine ⟨fun root hroot => ?_, fun k hk root hroot =>
    h.fsRootIs_mono hroots hmono hid (Or.inr ?_) hroot⟩
  · -- the new turn has no root of its own, as its id is new
    have hknown : Known s.turnStore.forest p.1 := by
      have hstored : ∀ k t, s.turnStore.turns.lookup k = some t → p = (t.turnId, t.depth + 1) →
          Known s.turnStore.forest p.1 := by
        rintro k t ht rfl
        refine Or.inr (Option.isSome_iff_exists.mpr ⟨t, ?_⟩)
        rw [← h.parented.turnId k t ht] at ht
        exact ht
      rcases parentOf_ok hp with ⟨-, t, ht, hpt⟩ | ⟨-, head, -, ⟨-, hpt⟩ | ⟨-, t, ht, hpt⟩⟩
      · exact hstored _ t ht hpt
      · exact Or.inl (by rw [hpt]; rfl)
      · exact hstored _ t ht hpt
    obtain ⟨vs, hvs⟩ := ParentChain.exists_chain h.parented.closed hknown
    obtain rfl := hroot.unique (h.fsRootIs hvs)
    have hvs' : Chain s'.turnStore.forest p.1 vs := by refine hvs.mono hmono ?_ ?_ <;> rfl
    have hchain : Chain s'.turnStore.forest s.turnStore.nextTurnId
        (r.args.record s.turnStore.nextTurnId p.1 p.2 now :: vs) := by
      refine .node h.counter ?_ hvs'
      change s'.turnStore.turns.lookup s.turnStore.nextTurnId = _
      rw [hturns, Finmap.lookup_insert]
    have hnew := FsRootIs.of_chain hchain (hroots ▸ h.get_zero) hid
    have hnone : s.fsRoots.get (r.args.record s.turnStore.nextTurnId p.1 p.2 now).turnId =
        none := h.get_of_notMem h.parented.fresh
    rw [hroots, firstRoot, List.findSome?_cons, hnone] at hnew
    exact hnew
  · obtain ⟨t, ht⟩ := Finmap.mem_iff.mp hk
    exact Option.isSome_iff_exists.mpr ⟨t, ht⟩

/-- A fork starts at its base, and leaves turns and roots alone. -/
theorem fork (h : s.Rooted) {base now : UInt64} {head : ContextHead}
    (hrun : runCall (Stores.forkContext base now) s d fault = (.ok head, s', d')) :
    head.headTurnId = base ∧ s'.turnStore.heads.lookup head.contextId = some head ∧
      s'.Rooted ∧ Known s.turnStore.forest base ∧
        ∀ k, Known s.turnStore.forest k → ∀ root, s.FsRootIs k root → s'.FsRootIs k root := by
  rw [Stores.forkContext, Cxdb.forkContext, onTurns, runCall_zoom, createContext_outcome] at hrun
  cases hb : s.turnStore.baseOf base with
  | error e =>
      rw [hb] at hrun
      cases (Prod.mk.inj hrun).1
  | ok b =>
      rw [hb] at hrun
      dsimp only at hrun
      split at hrun
      case isFalse => cases (Prod.mk.inj hrun).1
      next hstop =>
      rw [hstop] at hrun
      obtain ⟨hx, hs'⟩ := Prod.mk.inj hrun
      obtain rfl := Except.ok.inj hx
      obtain ⟨rfl, -⟩ := Prod.mk.inj hs'
      refine ⟨?_, Finmap.lookup_insert _, ⟨⟨h.parented.zero, h.parented.turnId,
        h.parented.parent, h.parented.below⟩, h.counter, h.known⟩, ?_, ?_⟩
      · rcases baseOf_ok hb with ⟨rfl, rfl⟩ | ⟨-, t, ht, rfl⟩
        · rfl
        · exact h.parented.turnId base t ht
      · rcases baseOf_ok hb with ⟨rfl, -⟩ | ⟨-, t, ht, -⟩
        · exact Or.inl rfl
        · exact Or.inr (Option.isSome_iff_exists.mpr ⟨t, ht⟩)
      · intro k hk root hroot
        refine h.fsRootIs_mono ?_ ?_ ?_ hk hroot
        · rfl
        · exact fun _ _ ht => ht
        · exact h.parented.turnId

/-- **The first turn of a fork** inherits what the turn does that was forked at. -/
theorem fork_append (h : s.Rooted) {base now : UInt64} {head : ContextHead}
    (hfork : runCall (Stores.forkContext base now) s d fault = (.ok head, s', d'))
    {r : AppendRequest} (hcontext : r.contextId = head.contextId) (hparent : r.parentTurnId = 0)
    {now' : UInt64} {d₁ d₂ : DataDir} {fault' : Option (Fault DataFile)} {record : TurnRecord}
    {s₂ : Stores}
    (hrun : runCall (Stores.appendTurn z blake3 r now') s' d₁ fault' = (.ok record, s₂, d₂)) :
    ∀ root, s.FsRootIs base root → s₂.FsRootIs record.turnId root := by
  obtain ⟨hbase, hhead, hrooted, hknown, hsame⟩ := h.fork hfork
  have hrecord : record.parentTurnId = base := by
    obtain ⟨-, ⟨-, ⟨e, he⟩, -⟩ | ⟨-, p, len, hp, -, hx, -⟩⟩ := Stores.appendTurn_outcome hrun
    · cases he
    split at hx
    case isFalse => cases hx
    obtain rfl := Except.ok.inj hx
    rcases parentOf_ok hp with ⟨hne, -⟩ | ⟨-, head', hhead', hcase⟩
    · exact absurd hparent hne
    · rw [hcontext, hhead] at hhead'
      obtain rfl := Option.some.inj hhead'
      rcases hcase with ⟨h0, rfl⟩ | ⟨-, t, ht, rfl⟩
      · exact h0.symm.trans hbase
      · exact (hrooted.parented.turnId _ t ht).trans hbase
  intro root hroot
  refine (hrooted.append hrun).1 root ?_
  rw [hrecord]
  exact hsame base hknown root hroot

end Stores.Rooted

/-! ### Runs -/

section

variable (z : Zstd) (blake3 : Bytes → Hash)

/-- The record that an attachment writes if its checks pass, and where the write stops. -/
def StoreSystem.rootWrite? (m : StoreSystem) :
    StoreAct → Option ((UInt64 × Hash) × Option (Fault DataFile))
  | .call (.attachFs turnId fsRootHash) _ fault _ => do
      let s ← m.proc
      if turnId ∈ s.turnStore.turns ∧ s.blobStore.contains fsRootHash = true then
        some ((turnId, fsRootHash), rootStop fault)
      else none
  | _ => none

/-- The step puts no byte of a root and no turn behind a torn record, and the turn counter does
not wrap. -/
def KeepsRoots (m : StoreSystem) (a : StoreAct) : Prop :=
  (∀ w ∈ m.rootWrite? a, written w.2 .rootsIdx (encodeRoot w.1) ≠ [] →
      rootsIdxFraming.unread (m.disk .rootsIdx) = []) ∧
    ∀ e ∈ m.turnEvent? z blake3 a, KeepsLog m.turns e

instance (m : StoreSystem) (a : StoreAct) : Decidable (KeepsRoots z blake3 m a) :=
  inferInstanceAs (Decidable (_ ∧ _))

/-- The attachment that a reply acknowledges. -/
def acknowledged : Except StoreError StoreReply → List (UInt64 × Hash)
  | .ok (.attached turnId fsRootHash) => [(turnId, fsRootHash)]
  | _ => []

/-- The attachment that a step has acknowledged. -/
def StoreSystem.attached (m : StoreSystem) : StoreAct → List (UInt64 × Hash)
  | .opening => []
  | .call c now fault _ =>
      match m.proc with
      | none => []
      | some s => acknowledged (runCall (c.run z blake3 now) s m.disk fault).1

/-- A store with the attachments that it has acknowledged, in order. -/
structure AttachedStore where
  store : StoreSystem
  attached : List (UInt64 × Hash)

/-- No process has opened the empty directory yet. -/
def AttachedStore.initial : AttachedStore where
  store := StoreSystem.initial
  attached := []

/-- The step of the store, with what it attaches. -/
def AttachedStore.act (m : AttachedStore) (a : StoreAct) : Option AttachedStore :=
  (m.store.act z blake3 a).map fun store =>
    { store, attached := m.attached ++ m.store.attached z blake3 a }

end

/-- The root that was attached last to a turn. -/
def lastAttached (attached : List (UInt64 × Hash)) (turnId : UInt64) : Option Hash :=
  attached.reverse.lookup turnId

theorem get_rootMap (attached : List (UInt64 × Hash)) :
    FsRootsIndex.get ⟨rootMap attached⟩ = lastAttached attached := by
  funext turnId
  exact lookup_insertAll_pairs attached turnId

/-! ### What calls do to the roots -/

variable {z : Zstd} {blake3 : Bytes → Hash}

theorem putIfAbsent_rootsIdx (hash : Hash) (raw : Bytes) (s : BlobStore) (d : DataDir)
    (fault : Option (Fault DataFile)) :
    (runCall (putIfAbsent z hash raw) s d fault).2.2 .rootsIdx = d .rootsIdx := by
  rw [putIfAbsent_run]
  split
  · rfl
  · split <;> exact putOnto_of_notMem z hash raw d _ (by decide)

theorem TurnCall.run_rootsIdx (c : TurnCall) (now : UInt64) (s : TurnStore) (d : DataDir)
    (fault : Option (Fault DataFile)) :
    (runCall (c.run now) s d fault).2.2 .rootsIdx = d .rootsIdx := by
  rw [TurnCall.run_eq]
  split
  · rfl
  · exact Entry.onto_of_notMem _ d _ (by decide)

/-- The call leaves the roots alone, and is none that attaches one. -/
def StoreCall.SparesRoots (c : StoreCall) (z : Zstd) (blake3 : Bytes → Hash) : Prop :=
  ∀ now s d fault,
    (runCall (c.run z blake3 now) s d fault).2.1.fsRoots = s.fsRoots ∧
      (runCall (c.run z blake3 now) s d fault).2.2 .rootsIdx = d .rootsIdx ∧
      acknowledged (runCall (c.run z blake3 now) s d fault).1 = []

theorem IsContextCall.sparesRoots {c : StoreCall} {tc : TurnCall} (hc : IsContextCall c tc) :
    c.SparesRoots z blake3 := by
  intro now s d fault
  rw [hc.run_call]
  refine ⟨rfl, tc.run_rootsIdx now s.turnStore d fault, ?_⟩
  dsimp only
  rcases (runCall (tc.run now) s.turnStore d fault).1 with e | reply
  · rfl
  · cases reply <;> rfl

/-- **Every call but an attachment** leaves the roots alone. -/
theorem StoreCall.sparesRoots (c : StoreCall)
    (hc : ∀ turnId fsRootHash, c ≠ .attachFs turnId fsRootHash) : c.SparesRoots z blake3 := by
  cases c with
  | createContext base => exact (isContextCall_create base).sparesRoots
  | forkContext base => exact (isContextCall_fork base).sparesRoots
  | attachFs turnId fsRootHash => exact absurd rfl (hc turnId fsRootHash)
  | putBlob hash data =>
      intro now s d fault
      rw [putBlob_run]
      split
      · refine ⟨rfl, putIfAbsent_rootsIdx hash data s.blobStore d fault, ?_⟩
        dsimp only
        cases (runCall (putIfAbsent z hash data) s.blobStore d fault).1 <;> rfl
      · exact ⟨rfl, rfl, rfl⟩
  | appendTurn r =>
      intro now s d fault
      rw [StoreCall.run, runCall_map]
      refine ⟨(Stores.appendTurn_outcome rfl).1, ?_, ?_⟩
      · rw [Stores.appendTurn_run]
        split
        · rfl
        next raw _ =>
        have hput := putIfAbsent_rootsIdx (z := z) r.contentHash raw s.blobStore d fault
        split
        next hrun =>
          rw [hrun] at hput
          exact hput
        next d₁ hrun =>
          rw [hrun] at hput
          have hcall := TurnCall.run_rootsIdx (.appendTurn r.args) now s.turnStore d₁ fault
          rw [TurnCall.run, runCall_map] at hcall
          exact hcall.trans hput
      · dsimp only
        cases (runCall (Stores.appendTurn z blake3 r now) s d fault).1 <;> rfl

/-- Opening loads the roots. -/
theorem Stores.openDir_roots {d d' : DataDir} {s : Stores}
    (h : Stores.openDir d = .ok (s, d')) :
    loadRoots (d .rootsIdx) = .ok (s.fsRoots.roots, d' .rootsIdx) := by
  simp only [Stores.openDir, bind, Except.bind] at h
  split at h
  · exact absurd h (by simp)
  next b hb =>
  split at h
  · exact absurd h (by simp)
  next t ht =>
  split at h
  · exact absurd h (by simp)
  next f hf =>
  simp only [pure, Except.pure, Except.ok.injEq, Prod.mk.injEq] at h
  obtain ⟨rfl, rfl⟩ := h
  have hfile : t.2 .rootsIdx = d .rootsIdx :=
    (TurnStore.openDir_of_notMem ht (by decide)).trans
      (BlobStore.openDir_of_notMem hb (by decide))
  rw [FsRootsIndex.openDir, hfile] at hf
  cases hload : loadRoots (d .rootsIdx) with
  | error e => simp [hload, bind, Except.bind] at hf
  | ok r =>
      rw [hload] at hf
      obtain rfl := Except.ok.inj hf
      simp

/-! ### What a step keeps -/

/-- The attachments that were acknowledged are in the file and, the last one of each turn, in
memory, and their turns are in the log and in memory. -/
structure RootsKept (j : Journal) (m : AttachedStore) : Prop where
  turns : TurnsLogged j m.store.turns
  layout : ∃ tail, rootsIdxFraming.Layout (m.store.disk .rootsIdx) m.attached tail
  logged : ∀ root ∈ m.attached, ∃ r ∈ j.turns, r.turnId = root.1
  live : ∀ s, m.store.proc = some s → s.fsRoots.roots = rootMap m.attached
  known : ∀ s, m.store.proc = some s → ∀ root ∈ m.attached, root.1 ∈ s.turnStore.turns

theorem RootsKept.initial : RootsKept (journalOf []) AttachedStore.initial where
  turns := by
    have hinit : AttachedStore.initial.store.turns = TurnSystem.initial := by
      simp [AttachedStore.initial, StoreSystem.turns, StoreSystem.initial, TurnSystem.initial,
        DataDir.only_empty]
    exact hinit ▸ TurnsLogged.initial
  layout := ⟨[], Framing.layout_nil⟩
  logged := by simp [AttachedStore.initial]
  live := by simp [AttachedStore.initial, StoreSystem.initial]
  known := by simp [AttachedStore.initial]

/-- A call keeps the turns that are in memory. -/
theorem turns_grow {e : Option TurnEvent} {s s' : TurnStore} {d d' : DataDir}
    (h : Perhaps TurnStep e ⟨some s, d⟩ ⟨some s', d'⟩) (hne : e ≠ some .opened) {k : UInt64}
    (hk : k ∈ s.turns) : k ∈ s'.turns := by
  cases e with
  | none =>
      obtain rfl := Option.some.inj (TurnSystem.mk.inj h).1
      exact hk
  | some e =>
      rcases TurnStep.cases h with ⟨rfl, -⟩ | ⟨c, now, err, s₀, rfl, -, -, hsame⟩ |
        ⟨c, now, w, stop, s₀, hw, -, hproc, -, -, -, hproc'⟩
      · exact absurd rfl hne
      · obtain rfl := Option.some.inj (TurnSystem.mk.inj hsame).1
        exact hk
      · obtain rfl := Option.some.inj hproc
        dsimp only at hproc'
        split at hproc'
        case isFalse => cases hproc'
        obtain rfl := Option.some.inj hproc'
        rcases s.after_turns w (d .turnsLog).length stop with hsame | ⟨t, -, -, hnew⟩
        · rwa [hsame]
        · rw [hnew]
          exact Finmap.mem_insert.mpr (Or.inr hk)

/-- The log of a longer run has the turns of a shorter one. -/
theorem turns_subset_append (es : List TurnEvent) (e : Option TurnEvent) :
    (journalOf es).turns ⊆ (journalOf (es ++ e.toList)).turns := by
  cases e with
  | none => rw [Option.toList_none, List.append_nil]; exact List.Subset.refl _
  | some e =>
      rw [Option.toList_some, journalOf_concat]
      exact List.subset_append_left _ _

/-- The write of a root stops in its file, before the end. -/
theorem written_rootStop {fault : Option (Fault DataFile)} {f : Fault DataFile}
    (h : rootStop fault = some f) (bs : Bytes) :
    f.bytes < 44 ∧ written (some f) .rootsIdx bs = bs.take f.bytes := by
  cases fault with
  | none => cases h
  | some g =>
      simp only [rootStop] at h
      split at h
      next hg =>
        obtain rfl := Option.some.inj h
        refine ⟨hg.2, ?_⟩
        simp only [written, hg.1, lt_irrefl, if_false, if_true]
      · cases h

/-- **What an attachment does** to the file, to the memory and to what is acknowledged. -/
theorem Stores.attachFs_kept {turnId : UInt64} {fsRootHash : Hash} {now : UInt64}
    {s s' : Stores} {d d' : DataDir} {fault : Option (Fault DataFile)}
    {x : Except StoreError StoreReply} {attached : List (UInt64 × Hash)} {tail : Bytes}
    (hrun : runCall ((StoreCall.attachFs turnId fsRootHash).run z blake3 now) s d fault =
      (x, s', d'))
    (hlayout : rootsIdxFraming.Layout (d .rootsIdx) attached tail)
    (haligned : turnId ∈ s.turnStore.turns → s.blobStore.contains fsRootHash = true →
      written (rootStop fault) .rootsIdx (encodeRoot (turnId, fsRootHash)) ≠ [] → tail = [])
    (hlive : s.fsRoots.roots = rootMap attached) :
    (∀ root ∈ acknowledged x, root.1 ∈ s.turnStore.turns) ∧
      (∃ tail', rootsIdxFraming.Layout (d' .rootsIdx) (attached ++ acknowledged x) tail') ∧
      s'.fsRoots.roots = rootMap (attached ++ acknowledged x) := by
  rw [StoreCall.run, runCall_map, Stores.attachFs_run] at hrun
  cases hturn : s.turnStore.getTurn turnId with
  | error e =>
      simp only [hturn, Except.map, Prod.mk.injEq] at hrun
      obtain ⟨rfl, rfl, rfl⟩ := hrun
      simp only [acknowledged, List.append_nil]
      exact ⟨by simp, ⟨tail, hlayout⟩, hlive⟩
  | ok turn =>
      have hmem : turnId ∈ s.turnStore.turns := by
        rw [TurnStore.getTurn] at hturn
        split at hturn
        · cases hturn
        next hl => exact Finmap.mem_of_lookup_eq_some hl
      by_cases hblob : s.blobStore.contains fsRootHash = true
      · have haligned := haligned hmem hblob
        cases hstop : rootStop fault with
        | none =>
            rw [hstop, written_none] at haligned
            simp only [hturn, hblob, hstop, if_true, Except.map, Prod.mk.injEq] at hrun
            obtain ⟨rfl, rfl, rfl⟩ := hrun
            obtain rfl := haligned (rootsIdxFraming.enc_ne_nil (turnId, fsRootHash))
            refine ⟨by simpa [acknowledged] using hmem, ⟨[], ?_⟩, ?_⟩
            · simp only [rootOnto, written_none, Function.update_self]
              exact hlayout.append (a := (turnId, fsRootHash)) trivial
            · simp only [hlive]
              exact (insertAll_concat ∅ attached (turnId, fsRootHash)).symm
        | some f =>
            obtain ⟨hlt, hwritten⟩ := written_rootStop hstop (encodeRoot (turnId, fsRootHash))
            rw [hstop, hwritten] at haligned
            simp only [hturn, hblob, hstop, if_true, reduceCtorEq, if_false, Except.map,
              Prod.mk.injEq] at hrun
            obtain ⟨rfl, rfl, rfl⟩ := hrun
            simp only [acknowledged, List.append_nil, rootOnto, hwritten, Function.update_self]
            refine ⟨by simp, ⟨_, hlayout.append_part (a := (turnId, fsRootHash)) trivial ?_
              haligned⟩, hlive⟩
            change f.bytes < (encodeRoot (turnId, fsRootHash)).length
            rwa [length_encodeRoot]
      · simp only [hturn, if_neg hblob, Except.map, Prod.mk.injEq] at hrun
        obtain ⟨rfl, rfl, rfl⟩ := hrun
        simp only [acknowledged, List.append_nil]
        exact ⟨by simp, ⟨tail, hlayout⟩, hlive⟩

/-- **A step** keeps the roots, if it puts no root and no turn behind a torn record. -/
theorem RootsKept.step {es : List TurnEvent} {m m' : AttachedStore} {a : StoreAct}
    (h : RootsKept (journalOf es) m) (hs : m.act z blake3 a = some m')
    (hkeeps : KeepsRoots z blake3 m.store a) :
    RootsKept (journalOf (es ++ (m.store.turnEvent? z blake3 a).toList)) m' := by
  obtain ⟨store, hact, rfl⟩ := Option.map_eq_some_iff.mp hs
  have hturns : TurnsLogged (journalOf (es ++ (m.store.turnEvent? z blake3 a).toList))
      store.turns := by
    obtain ⟨t, hstep, ht⟩ := StoreSystem.act_turns hact
    have hlogged := h.turns.perhaps hstep hkeeps.2
    rcases ht with ht | ht
    · rwa [ht]
    · rw [ht]
      exact hlogged.dies
  obtain ⟨tail, hlayout⟩ := h.layout
  have hgrow := turns_subset_append es (m.store.turnEvent? z blake3 a)
  rcases StoreSystem.act_cases hact with ⟨rfl, s, d', ho, rfl⟩ |
    ⟨c, now, fault, dies, s, x, s', rfl, hproc, hrun, hparts, hproc'⟩
  · -- opening
    have hroots := Stores.openDir_roots ho
    rw [loadRoots_of_layout hlayout] at hroots
    obtain ⟨hmap, hfile⟩ := Prod.mk.inj (Except.ok.inj hroots)
    obtain ⟨hopened, -⟩ := h.turns.log.opened (Stores.openDir_ok ho).2
    simp only [StoreSystem.attached, List.append_nil]
    refine ⟨hturns, ⟨_, hfile ▸ hlayout.kept⟩, fun root hroot => ?_, ?_, ?_⟩
    · obtain ⟨r, hr, hid⟩ := h.logged root hroot
      exact ⟨r, hgrow hr, hid⟩
    · rintro s₁ hs₁
      obtain rfl := Option.some.inj hs₁
      exact hmap.symm
    · rintro s₁ hs₁ root hroot
      obtain rfl := Option.some.inj hs₁
      rw [hopened]
      exact mem_turnMap.mpr (h.logged root hroot)
  · -- a call
    have hattached : m.store.attached z blake3 (.call c now fault dies) = acknowledged x := by
      simp only [StoreSystem.attached, hproc, hrun]
    rw [hattached]
    obtain ⟨hknown, hlayout', hroots⟩ : (∀ root ∈ acknowledged x, root.1 ∈ s.turnStore.turns) ∧
        (∃ tail', rootsIdxFraming.Layout (store.disk .rootsIdx)
          (m.attached ++ acknowledged x) tail') ∧
        s'.fsRoots.roots = rootMap (m.attached ++ acknowledged x) := by
      by_cases hc : ∃ turnId fsRootHash, c = .attachFs turnId fsRootHash
      · obtain ⟨turnId, fsRootHash, rfl⟩ := hc
        refine Stores.attachFs_kept hrun hlayout (fun hmem hblob hne => ?_) (h.live s hproc)
        rw [← hlayout.unread]
        refine hkeeps.1 ((turnId, fsRootHash), rootStop fault) ?_ hne
        simp [StoreSystem.rootWrite?, hproc, hmem, hblob]
      · have hcall : c.SparesRoots z blake3 :=
          c.sparesRoots fun turnId fsRootHash heq => hc ⟨turnId, fsRootHash, heq⟩
        have hspares := hcall now s m.store.disk fault
        rw [hrun] at hspares
        obtain ⟨hroots, hfile, hnone⟩ := hspares
        dsimp only at hroots hfile hnone
        rw [hnone, List.append_nil, hroots, hfile]
        exact ⟨nofun, ⟨tail, hlayout⟩, h.live s hproc⟩
    have hmono : ∀ k ∈ s.turnStore.turns, k ∈ s'.turnStore.turns := fun k =>
      turns_grow hparts.call turnEvent?_ne_opened
    have hlive : ∀ s₁, store.proc = some s₁ → s₁ = s' := by
      intro s₁ hs₁
      rcases hproc' with hlive | hdead
      · exact Option.some.inj (hs₁.symm.trans hlive)
      · cases hdead.symm.trans hs₁
    refine ⟨hturns, hlayout', fun root hroot => ?_, ?_, ?_⟩
    · rcases List.mem_append.mp hroot with hroot | hroot
      · obtain ⟨r, hr, hid⟩ := h.logged root hroot
        exact ⟨r, hgrow hr, hid⟩
      · obtain ⟨r, hr⟩ := Finmap.mem_iff.mp (hknown root hroot)
        have hturn := h.turns.logged s.turnStore (by rw [StoreSystem.turns, hproc]; rfl) _ r hr
        refine ⟨r, hgrow hturn, ?_⟩
        exact (h.turns.parented s.turnStore (by rw [StoreSystem.turns, hproc]; rfl)).turnId _ r hr
    · rintro s₁ hs₁
      rw [hlive s₁ hs₁]
      exact hroots
    · rintro s₁ hs₁ root hroot
      rw [hlive s₁ hs₁]
      rcases List.mem_append.mp hroot with hroot | hroot
      · exact hmono _ (h.known s hproc root hroot)
      · exact hmono _ (hknown root hroot)

/-- The running store has sound roots. -/
theorem RootsKept.rooted {j : Journal} {m : AttachedStore} (h : RootsKept j m) {s : Stores}
    (hs : m.store.proc = some s) : s.Rooted := by
  have hproc : m.store.turns.proc = some s.turnStore := by
    rw [StoreSystem.turns, hs]
    rfl
  refine ⟨h.turns.parented _ hproc, h.turns.counter _ hproc, fun k hk => ?_⟩
  obtain ⟨hash, hhash⟩ := Option.isSome_iff_exists.mp hk
  rw [FsRootsIndex.get, h.live s hs] at hhash
  rcases exists_of_lookup_insertAll hhash with ⟨root, hroot, rfl, -⟩ | hnone
  · exact h.known s hs root hroot
  · simp at hnone

/-! ### Inherited roots -/

/-- What `get_fs_root` says of every turn: it ends, with the root that was attached last to the
nearest turn on the history, the turn itself included, that has one; and what becomes of that
when another root is attached, a turn is appended or a context is forked. -/
structure Stores.InheritsRoots (z : Zstd) (blake3 : Bytes → Hash) (s : Stores)
    (attached : List (UInt64 × Hash)) : Prop where
  history : ∀ turnId ∈ s.turnStore.turns, ∃ vs, Chain s.turnStore.forest turnId vs
  nearest : ∀ turnId vs, Chain s.turnStore.forest turnId vs →
    s.FsRootIs turnId (firstRoot (lastAttached attached) vs)
  unknown : ∀ turnId, turnId ∉ s.turnStore.turns → s.FsRootIs turnId none
  /-- A root is seen from the turns below it that have no nearer one, and changes nothing
  elsewhere. -/
  attach : ∀ turnId hash d fault s' d',
    runCall (Stores.attachFs turnId hash) s d fault = (.ok (), s', d') →
      s'.turnStore = s.turnStore ∧ ∀ k vs, Chain s.turnStore.forest k vs →
        s'.FsRootIs k (if Uncovered (lastAttached attached) turnId vs then some hash
          else firstRoot (lastAttached attached) vs)
  append : ∀ r now d fault record s' d',
    runCall (Stores.appendTurn z blake3 r now) s d fault = (.ok record, s', d') →
      (∀ root, s.FsRootIs record.parentTurnId root → s'.FsRootIs record.turnId root) ∧
        ∀ k ∈ s.turnStore.turns, ∀ root, s.FsRootIs k root → s'.FsRootIs k root
  fork : ∀ base now d fault head s' d',
    runCall (Stores.forkContext base now) s d fault = (.ok head, s', d') →
      ∀ r now' d₁ fault' record s₂ d₂, r.contextId = head.contextId → r.parentTurnId = 0 →
        runCall (Stores.appendTurn z blake3 r now') s' d₁ fault' = (.ok record, s₂, d₂) →
          ∀ root, s.FsRootIs base root → s₂.FsRootIs record.turnId root

theorem Stores.Rooted.inherits {s : Stores} (h : s.Rooted) {attached : List (UInt64 × Hash)}
    (hroots : s.fsRoots.roots = rootMap attached) : s.InheritsRoots z blake3 attached := by
  have hget : s.fsRoots.get = lastAttached attached := by
    rw [← get_rootMap, ← hroots]
  refine ⟨fun _ => h.exists_chain, fun _ _ hvs => hget ▸ h.fsRootIs hvs, fun _ hturn =>
    .of_unknown hturn (h.get_of_notMem hturn), ?_, fun _ _ _ _ _ _ _ hrun => h.append hrun, ?_⟩
  · intro turnId hash d fault s' d' hrun
    obtain ⟨hturns, -, hafter⟩ := h.attach hrun
    rw [hget] at hafter
    exact ⟨hturns, hafter⟩
  · intro base now d fault head s' d' hfork r now' d₁ fault' record s₂ d₂ hcontext hparent hrun
    exact h.fork_append hfork hcontext hparent hrun

/-- **Roots are inherited** in every state of every run of calls, writes that fail or crash and
reopenings, in which no step puts a root or a turn behind a torn record or takes the last turn
id: what a turn inherits is what was attached last, of all attachments that have been
acknowledged, to the nearest turn on its history. -/
theorem roots_inherited {acts : List StoreAct} {m : AttachedStore}
    (h : Run (Guarded (fun m a => KeepsRoots z blake3 m.store a)
      (Steps (AttachedStore.act z blake3))) AttachedStore.initial acts m) {s : Stores}
    (hs : m.store.proc = some s) : s.InheritsRoots z blake3 m.attached := by
  obtain ⟨es, hkept⟩ : ∃ es, RootsKept (journalOf es) m := by
    refine h.invariant (I := fun _ m => ∃ es, RootsKept (journalOf es) m)
      ⟨[], RootsKept.initial⟩ ?_
    rintro _ m a m' ⟨es, hkept⟩ ⟨hkeeps, hstep⟩
    exact ⟨_, hkept.step hstep hkeeps⟩
  exact (hkept.rooted hs).inherits (hkept.live s hs)

/-- The attachment of the hash of no bytes to the first turn. -/
def attachAct (fault : Option (Fault DataFile)) (dies : Bool) : StoreAct :=
  .call (.attachFs 1 emptyHash) 2 fault dies

/-- A root is attached to the first turn of a context, which is forked there and appended to;
then the directory is opened again. -/
def forkedRootActs : List StoreAct :=
  [.opening, .call (.createContext 0) 0 none false, emptyAct 1 1 none, attachAct none false,
    forkAct, emptyAct 2 4 none, .opening]

/-- A stored turn, by its id and that of its parent. -/
def TurnStore.Holds (s : TurnStore) (turnId parentTurnId : UInt64) : Prop :=
  (s.turns.lookup turnId).map (fun r => (r.turnId, r.parentTurnId)) =
    some (turnId, parentTurnId)

instance (s : TurnStore) (turnId parentTurnId : UInt64) :
    Decidable (s.Holds turnId parentTurnId) :=
  inferInstanceAs (Decidable (_ = _))

/-- A stored turn comes before the history of its parent. -/
theorem TurnStore.Holds.chain {s : TurnStore} {turnId parentTurnId : UInt64}
    (h : s.Holds turnId parentTurnId) (hne : turnId ≠ 0) {vs : List TurnRecord}
    (hvs : Chain s.forest parentTurnId vs) :
    ∃ r : TurnRecord, r.turnId = turnId ∧ Chain s.forest turnId (r :: vs) := by
  obtain ⟨r, hr, hids⟩ := Option.map_eq_some_iff.mp h
  obtain ⟨hid, hparent⟩ := Prod.mk.inj hids
  exact ⟨r, hid, .node hne hr (by rw [← hparent] at hvs; exact hvs)⟩

set_option maxRecDepth 4000 in
/-- The turn of the fork inherits the root. -/
theorem roots_inherited_forkedRootActs :
    ∃ (m : AttachedStore) (s : Stores), m.store.proc = some s ∧ m.attached = [(1, emptyHash)] ∧
      s.InheritsRoots rawBlockZstd (fun _ => emptyHash) m.attached ∧
      s.FsRootIs 2 (some emptyHash) := by
  obtain ⟨m, hrun, hproc, hattached, hturns⟩ := exists_run_of_foldlM
    (fun (m : AttachedStore) a => KeepsRoots rawBlockZstd (fun _ => emptyHash) m.store a)
    (AttachedStore.act rawBlockZstd fun _ => emptyHash) AttachedStore.initial forkedRootActs
    (fun m => m.store.proc.isSome = true ∧ m.attached = [(1, emptyHash)] ∧
      ∀ s ∈ m.store.proc, s.turnStore.Holds 1 0 ∧ s.turnStore.Holds 2 1)
    (by decide +kernel)
  obtain ⟨s, hs⟩ := Option.isSome_iff_exists.mp hproc
  have hinherits := roots_inherited hrun hs
  refine ⟨m, s, hs, hattached, hinherits, ?_⟩
  obtain ⟨h₁, h₂⟩ := hturns s hs
  obtain ⟨r₁, hr₁, hchain₁⟩ := h₁.chain (by decide) .root
  obtain ⟨r₂, hr₂, hchain₂⟩ := h₂.chain (by decide) hchain₁
  have hroot := hinherits.nearest 2 _ hchain₂
  rw [hattached] at hroot
  simpa [firstRoot, hr₁, hr₂, lastAttached, List.lookup_cons] using hroot

/-- A crash leaves three bytes of the record of a root, and the root is attached again. -/
def reattachedActs : List StoreAct :=
  [.opening, .call (.createContext 0) 0 none false, emptyAct 1 1 none,
    attachAct (some ⟨.rootsIdx, 3⟩) true, .opening, attachAct none false, .opening]

set_option maxRecDepth 4000 in
/-- **A root that was attached again is lost**: it was acknowledged, and the turn has none after
the directory has been opened once more. -/
theorem reattached_root_lost :
    ¬ ∀ acts (m : AttachedStore), Run (Steps (AttachedStore.act rawBlockZstd fun _ => emptyHash))
        AttachedStore.initial acts m → ∀ s, m.store.proc = some s →
          s.InheritsRoots rawBlockZstd (fun _ => emptyHash) m.attached := by
  intro h
  obtain ⟨m, hrun, hproc, hattached, hturn⟩ := exists_run_of_foldlM (fun _ _ => True)
    (AttachedStore.act rawBlockZstd fun _ => emptyHash) AttachedStore.initial reattachedActs
    (fun m => m.store.proc.isSome = true ∧ m.attached = [(1, emptyHash)] ∧
      ∀ s ∈ m.store.proc, s.turnStore.Holds 1 0 ∧ s.fsRoots.get 1 = none)
    (by decide +kernel)
  obtain ⟨s, hs⟩ := Option.isSome_iff_exists.mp hproc
  obtain ⟨hturn, hnone⟩ := hturn s hs
  obtain ⟨r, hr, hchain⟩ := hturn.chain (by decide) .root
  have hclaimed := (h _ m hrun.of_guarded s hs).nearest 1 _ hchain
  have hreal := Stores.FsRootIs.of_unattached hchain hnone
  have heq := hclaimed.unique hreal
  rw [hattached] at heq
  simp [firstRoot, hr, hnone, lastAttached, List.lookup_cons] at heq

end Cxdb
