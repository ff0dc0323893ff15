import Cxdb.StoreFaults
import Cxdb.TurnDag

/-!
# The Store over Runs with Faults

What holds of a running store after any number of calls, failed writes, crashes and
reopenings, as long as no call writes behind a torn record: the turn DAG is linked, the
payload of every turn has an entry in the blob index, and the records of the index stand in
the pack.

No condition is put on `turns.meta`: a record of it that is read wrong changes the metadata
of turns, but neither the turns nor the payloads.

## Main results

* `TurnStore.Linked.after`: a call keeps the DAG linked, wherever it stops.
* `TurnsLogged.step`, `TurnsKept.step`, `IndexKept.step`: what a step keeps, in memory and in
  the files.
* `StoreKept.step`: the same for the three stores together.
* `sound_of_run`: the running store is sound in every state reached.
-/

open ByteFormat FaultyDisk RecordLog LastWrite Transition ParentChain

namespace Cxdb

/-! ### The turn DAG -/

/-- The id that a call takes is new. -/
theorem TurnStore.Parented.fresh {s : TurnStore} (h : s.Parented) : s.nextTurnId ∉ s.turns :=
  fun hmem => absurd (h.below _ hmem) (lt_irrefl _)

theorem TurnStore.Linked.fresh {s : TurnStore} (h : s.Linked) : s.nextTurnId ∉ s.turns :=
  h.parented.fresh

/-- Turns that are there stay where they are when a new one comes. -/
theorem TurnStore.Parented.lookup_insert {s : TurnStore} (h : s.Parented) {record : TurnRecord}
    (hid : record.turnId = s.nextTurnId) {k : UInt64} {r : TurnRecord}
    (hr : s.turns.lookup k = some r) :
    (s.turns.insert record.turnId record).lookup k = some r := by
  rwa [Finmap.lookup_insert_of_ne]
  rintro rfl
  exact h.fresh (hid ▸ Finmap.mem_of_lookup_eq_some hr)

theorem TurnStore.Linked.lookup_insert {s : TurnStore} (h : s.Linked) {record : TurnRecord}
    (hid : record.turnId = s.nextTurnId) {k : UInt64} {r : TurnRecord}
    (hr : s.turns.lookup k = some r) :
    (s.turns.insert record.turnId record).lookup k = some r :=
  h.parented.lookup_insert hid hr

/-- A call that takes an id keeps the parents. -/
theorem TurnStore.Parented.takeId {s : TurnStore} (h : s.Parented) (w : Entry)
    (hroom : w.turn ≠ none → s.nextTurnId.toNat + 1 < 2 ^ 64) : (s.takeId w).Parented := by
  rcases w with ⟨_ | t, head⟩
  · exact ⟨h.zero, h.turnId, h.parent, h.below⟩
  · refine ⟨h.zero, h.turnId, h.parent, fun k hk => ?_⟩
    have hlt := h.below k hk
    rw [UInt64.lt_iff_toNat_lt] at hlt ⊢
    have hnext : (s.nextTurnId + 1).toNat = s.nextTurnId.toNat + 1 :=
      toNat_add_one (hroom (Option.some_ne_none t))
    change k.toNat < (s.nextTurnId + 1).toNat
    omega

/-- And the DAG linked. -/
theorem TurnStore.Linked.takeId {s : TurnStore} (h : s.Linked) (w : Entry)
    (hroom : w.turn ≠ none → s.nextTurnId.toNat + 1 < 2 ^ 64) : (s.takeId w).Linked := by
  obtain ⟨hzero, hturnId, hparent, hbelow⟩ := h.parented.takeId w hroom
  refine ⟨hzero, hturnId, hparent, ?_, hbelow⟩
  rcases w with ⟨_ | t, head⟩ <;> exact h.head

/-- The turn of an entry hangs off a turn of the store. -/
theorem TurnStore.Parented.entryOf_turn {s : TurnStore} (h : s.Parented) {now : UInt64}
    {c : TurnCall} {w : Entry} {t : TurnRecord × TurnMeta} (hw : s.entryOf now c = .ok w)
    (ht : w.turn = some t) :
    (t.1.parentTurnId = 0 ∧ t.1.depth = 0) ∨
      ∃ p, s.turns.lookup t.1.parentTurnId = some p ∧ t.1.parentTurnId < s.nextTurnId ∧
        t.1.depth = p.depth + 1 := by
  cases c with
  | createContext base | forkContext base =>
      obtain ⟨b, -, rfl⟩ := entryOf_create hw
      cases ht
  | appendTurn a =>
      obtain ⟨q, hq, rfl⟩ := entryOf_append hw
      obtain rfl := Option.some.inj ht
      have hstored : ∀ k r, s.turns.lookup k = some r → q = (r.turnId, r.depth + 1) →
          ∃ p, s.turns.lookup q.1 = some p ∧ q.1 < s.nextTurnId ∧ q.2 = p.depth + 1 := by
        rintro k r hr rfl
        rw [h.turnId k r hr]
        exact ⟨r, hr, h.below k (Finmap.mem_of_lookup_eq_some hr), rfl⟩
      rcases parentOf_ok hq with ⟨-, r, hr, hqr⟩ | ⟨-, head, -, ⟨-, hqr⟩ | ⟨-, r, hr, hqr⟩⟩
      · exact Or.inr (hstored _ r hr hqr)
      · exact Or.inl (by simp [AppendArgs.record, hqr])
      · exact Or.inr (hstored _ r hr hqr)

theorem TurnStore.entryOf_parent {s : TurnStore} (h : s.Linked) {now : UInt64} {c : TurnCall}
    {w : Entry} {t : TurnRecord × TurnMeta} (hw : s.entryOf now c = .ok w)
    (ht : w.turn = some t) :
    (t.1.parentTurnId = 0 ∧ t.1.depth = 0) ∨
      ∃ p, s.turns.lookup t.1.parentTurnId = some p ∧ t.1.parentTurnId < s.nextTurnId ∧
        t.1.depth = p.depth + 1 :=
  h.parented.entryOf_turn hw ht

/-- The head of an entry names its turn, or a turn of the store. -/
theorem TurnStore.entryOf_headTurn {s : TurnStore} (h : s.Linked) {now : UInt64}
    {c : TurnCall} {w : Entry} (hw : s.entryOf now c = .ok w) :
    match w.turn with
    | some t => w.head.headTurnId = t.1.turnId ∧ w.head.headDepth = t.1.depth
    | none => (w.head.headTurnId = 0 ∧ w.head.headDepth = 0) ∨
        ∃ r, s.turns.lookup w.head.headTurnId = some r ∧ r.depth = w.head.headDepth := by
  cases c with
  | createContext base | forkContext base =>
      obtain ⟨b, hb, rfl⟩ := entryOf_create hw
      rcases baseOf_ok hb with ⟨-, rfl⟩ | ⟨-, r, hr, rfl⟩
      · exact Or.inl ⟨rfl, rfl⟩
      · refine Or.inr ⟨r, ?_, rfl⟩
        dsimp only
        rwa [h.turnId _ r hr]
  | appendTurn a =>
      obtain ⟨q, -, rfl⟩ := entryOf_append hw
      exact ⟨rfl, rfl⟩

/-- What adding a turn makes of the turns. -/
theorem TurnStore.addTurn_some {w : Entry} {record : TurnRecord} {turnMeta : TurnMeta}
    (ht : w.turn = some (record, turnMeta)) (s : TurnStore) (offset : ℕ) :
    ((s.takeId w).addTurn w offset).turns = s.turns.insert record.turnId record ∧
      ((s.takeId w).addTurn w offset).heads = s.heads ∧
      ((s.takeId w).addTurn w offset).nextTurnId = s.nextTurnId + 1 := by
  obtain ⟨turn, head⟩ := w
  obtain rfl : turn = some (record, turnMeta) := ht
  exact ⟨rfl, rfl, rfl⟩

/-- A turn below a stored one keeps the parents, once its id has been taken. -/
theorem TurnStore.Parented.addTurn {s : TurnStore} (h : s.Parented) {now : UInt64}
    {c : TurnCall} {w : Entry} (hw : s.entryOf now c = .ok w) (hpos : s.nextTurnId ≠ 0)
    (hroom : w.turn ≠ none → s.nextTurnId.toNat + 1 < 2 ^ 64) (offset : ℕ) :
    ((s.takeId w).addTurn w offset).Parented := by
  cases ht : w.turn with
  | none =>
      rw [TurnStore.addTurn, ht]
      exact h.takeId w hroom
  | some t =>
      obtain ⟨record, turnMeta⟩ := t
      have hid : record.turnId = s.nextTurnId := entryOf_turnId hw ht
      have hmoved : (s.nextTurnId + 1).toNat = s.nextTurnId.toNat + 1 :=
        toNat_add_one (hroom (by rw [ht]; exact Option.some_ne_none _))
      have hold : ∀ {k r}, s.turns.lookup k = some r →
          (s.turns.insert record.turnId record).lookup k = some r := h.lookup_insert hid
      obtain ⟨hturns, -, hnext⟩ := TurnStore.addTurn_some ht s offset
      constructor
      · rw [hturns, Finmap.lookup_insert_of_ne _ (by rw [hid]; exact hpos.symm)]
        exact h.zero
      · intro k r hr
        rw [hturns] at hr
        by_cases hk : k = record.turnId
        · subst hk
          rw [Finmap.lookup_insert] at hr
          rw [Option.some.inj hr]
        · rw [Finmap.lookup_insert_of_ne _ hk] at hr
          exact h.turnId k r hr
      · intro k r hr
        rw [hturns] at hr ⊢
        by_cases hk : k = record.turnId
        · subst hk
          rw [Finmap.lookup_insert] at hr
          obtain rfl := Option.some.inj hr
          rcases h.entryOf_turn hw ht with h0 | ⟨p, hp, hlt, hdepth⟩
          · exact Or.inl h0
          · exact Or.inr ⟨p, hold hp, hid ▸ hlt, hdepth⟩
        · rw [Finmap.lookup_insert_of_ne _ hk] at hr
          rcases h.parent k r hr with h0 | ⟨p, hp, hlt, hdepth⟩
          · exact Or.inl h0
          · exact Or.inr ⟨p, hold hp, hlt, hdepth⟩
      · intro k hk
        rw [hturns] at hk
        have hle : k.toNat ≤ s.nextTurnId.toNat := by
          rcases Finmap.mem_insert.mp hk with rfl | hk
          · rw [hid]
          · exact (UInt64.lt_iff_toNat_lt.mp (h.below k hk)).le
        rw [UInt64.lt_iff_toNat_lt, hnext]
        omega

/-- And the DAG linked: the heads stay. -/
theorem TurnStore.Linked.addTurn {s : TurnStore} (h : s.Linked) {now : UInt64} {c : TurnCall}
    {w : Entry} (hw : s.entryOf now c = .ok w) (hpos : s.nextTurnId ≠ 0)
    (hroom : w.turn ≠ none → s.nextTurnId.toNat + 1 < 2 ^ 64) (offset : ℕ) :
    ((s.takeId w).addTurn w offset).Linked := by
  obtain ⟨hzero, hturnId, hparent, hbelow⟩ := h.parented.addTurn hw hpos hroom offset
  refine ⟨hzero, hturnId, hparent, ?_, hbelow⟩
  cases ht : w.turn with
  | none =>
      rw [TurnStore.addTurn, ht]
      exact (h.takeId w hroom).head
  | some t =>
      obtain ⟨hturns, hheads, -⟩ := TurnStore.addTurn_some ht s offset
      rw [hturns, hheads]
      intro c hd hhd
      rcases h.head c hd hhd with h0 | ⟨r, hr, hdepth⟩
      · exact Or.inl h0
      · exact Or.inr ⟨r, h.lookup_insert (entryOf_turnId hw ht) hr, hdepth⟩

/-- A call keeps the parents, wherever it stops. -/
theorem TurnStore.Parented.after {s : TurnStore} (h : s.Parented) {now : UInt64} {c : TurnCall}
    {w : Entry} (hw : s.entryOf now c = .ok w) (hpos : s.nextTurnId ≠ 0)
    (hroom : w.turn ≠ none → s.nextTurnId.toNat + 1 < 2 ^ 64) (offset : ℕ)
    (stop : Option (Fault DataFile)) : (s.after w offset stop).Parented := by
  have hadd := h.addTurn hw hpos hroom offset
  cases stop with
  | none => exact ⟨hadd.zero, hadd.turnId, hadd.parent, hadd.below⟩
  | some f =>
      rw [TurnStore.after]
      split
      · exact hadd
      · exact h.takeId w hroom

/-- A head that names a stored turn keeps the DAG linked. -/
theorem TurnStore.Linked.addHead {s : TurnStore} (h : s.Linked) {w : Entry}
    (hhead : (w.head.headTurnId = 0 ∧ w.head.headDepth = 0) ∨
      ∃ r, s.turns.lookup w.head.headTurnId = some r ∧ r.depth = w.head.headDepth) :
    (s.addHead w).Linked := by
  refine ⟨h.zero, h.turnId, h.parent, fun c hd hhd => ?_, h.below⟩
  by_cases hc : c = w.head.contextId
  · subst hc
    simp only [TurnStore.addHead, Finmap.lookup_insert, Option.some.injEq] at hhd
    subst hhd
    exact hhead
  · simp only [TurnStore.addHead, Finmap.lookup_insert_of_ne _ hc] at hhd
    exact h.head c hd hhd

/-- **A call keeps the DAG linked**, wherever it stops. -/
theorem TurnStore.Linked.after {s : TurnStore} (h : s.Linked) {now : UInt64} {c : TurnCall}
    {w : Entry} (hw : s.entryOf now c = .ok w) (hpos : s.nextTurnId ≠ 0)
    (hroom : w.turn ≠ none → s.nextTurnId.toNat + 1 < 2 ^ 64) (offset : ℕ)
    (stop : Option (Fault DataFile)) : (s.after w offset stop).Linked := by
  have hadd := h.addTurn hw hpos hroom offset
  cases stop with
  | some f =>
      rw [TurnStore.after]
      split
      · exact hadd
      · exact h.takeId w hroom
  | none =>
      refine hadd.addHead ?_
      have hname := TurnStore.entryOf_headTurn h hw
      cases ht : w.turn with
      | none =>
          rw [ht] at hname
          rw [TurnStore.addTurn, TurnStore.takeId, ht]
          exact hname
      | some t =>
          rw [ht] at hname
          obtain ⟨hturn, hdepth⟩ := hname
          refine Or.inr ⟨t.1, ?_, hdepth.symm⟩
          rw [TurnStore.addTurn, ht, hturn]
          exact Finmap.lookup_insert _

/-- The turns after a call: the old ones, and the new one if the call got that far. -/
theorem TurnStore.after_turns (s : TurnStore) (w : Entry) (offset : ℕ)
    (stop : Option (Fault DataFile)) :
    (s.after w offset stop).turns = s.turns ∨
      ∃ t, w.turn = some t ∧ (∀ f ∈ stop, f.file = .headsTbl) ∧
        (s.after w offset stop).turns = s.turns.insert t.1.turnId t.1 := by
  rcases w with ⟨_ | t, head⟩
  · refine Or.inl ?_
    cases stop with
    | none => rfl
    | some f =>
        rw [TurnStore.after]
        split <;> rfl
  · cases stop with
    | none => exact Or.inr ⟨t, rfl, by simp, rfl⟩
    | some f =>
        rw [TurnStore.after]
        split
        next hf => exact Or.inr ⟨t, rfl, by simpa using hf, rfl⟩
        · exact Or.inl rfl

/-! ### The files of the turn store -/

/-- The event puts no turn and no head behind a torn record, and the turn counter does not
wrap. -/
def KeepsTurns (m : TurnSystem) (e : TurnEvent) : Prop :=
  Aligned turnsLogFraming .turnsLog m e ∧ Aligned headsTblFraming .headsTbl m e ∧ HasRoom m e

instance (m : TurnSystem) (e : TurnEvent) : Decidable (KeepsTurns m e) :=
  inferInstanceAs (Decidable (_ ∧ _))

/-- The counter that `update_counters` computes is not 0, as no turn has the last id. -/
theorem nextId_ne_zero {α : Type} {m : HashMap UInt64 α}
    (hroom : ∀ k ∈ m, k.toNat + 1 < 2 ^ 64) : nextId m 1 ≠ 0 := by
  rw [nextId]
  split
  · decide
  next x hx =>
    have hx : x ∈ m := Finmap.mem_keys.mp (Finset.mem_of_max hx)
    intro h0
    have hnext := toNat_add_one (hroom x hx)
    rw [h0] at hnext
    cases hnext

/-- The event puts no turn behind a torn record, and the turn counter does not wrap. -/
def KeepsLog (m : TurnSystem) (e : TurnEvent) : Prop :=
  Aligned turnsLogFraming .turnsLog m e ∧ HasRoom m e

instance (m : TurnSystem) (e : TurnEvent) : Decidable (KeepsLog m e) :=
  inferInstanceAs (Decidable (_ ∧ _))

/-- The log holds a DAG of turns, and the turns in memory have their parents and are all of
them in the log. -/
structure TurnsLogged (j : Journal) (m : TurnSystem) : Prop where
  log : LogKept j m
  dag : Dag j
  positive : ∀ r ∈ j.turns, r.turnId ≠ 0
  parented : ∀ s, m.proc = some s → s.Parented
  logged : ∀ s, m.proc = some s → ∀ k r, s.turns.lookup k = some r → r ∈ j.turns
  counter : ∀ s, m.proc = some s → s.nextTurnId ≠ 0

theorem TurnsLogged.initial : TurnsLogged (journalOf []) TurnSystem.initial where
  log := LogKept.initial
  dag := Dag.initial
  positive := by simp [journalOf]
  parented := by simp [TurnSystem.initial]
  logged := by simp [TurnSystem.initial]
  counter := by simp [TurnSystem.initial]

/-- The log outlives the process. -/
theorem TurnsLogged.dies {j : Journal} {p : Option TurnStore} {d : DataDir}
    (h : TurnsLogged j ⟨p, d⟩) : TurnsLogged j ⟨none, d⟩ where
  log := ⟨h.log.layout, h.log.increasing, h.log.room, by simp⟩
  dag := h.dag
  positive := h.positive
  parented := by simp
  logged := by simp
  counter := by simp

/-- **The turn store keeps its turns**, in memory and in its log. -/
theorem TurnsLogged.step {es : List TurnEvent} {m m' : TurnSystem} {e : TurnEvent}
    (h : TurnsLogged (journalOf es) m) (hs : TurnStep m e m') (hkeeps : KeepsLog m e) :
    TurnsLogged (journalOf (es ++ [e])) m' := by
  obtain ⟨hlogAligned, hroom⟩ := hkeeps
  have hlog := h.log.step hs hlogAligned hroom
  have hdag := h.dag.step hs h.log fun s hproc => h.logged s hproc
  rcases hs.cases with ⟨rfl, s, d', ho, rfl⟩ | ⟨c, now, err, s, rfl, -, -, rfl⟩ |
    ⟨c, now, w, stop, s, hw, -, hproc, hentry, -, -, hproc'⟩
  · rw [journalOf_concat_of_no_write rfl] at hlog hdag ⊢
    obtain ⟨hturns, hnext, -⟩ := h.log.opened ho
    refine ⟨hlog, hdag, h.positive, ?_, ?_, ?_⟩
    · rintro s' hs'
      obtain rfl := Option.some.inj hs'
      exact hdag.parented hlog h.positive (hlog.fresh s rfl) hturns
    · rintro s' hs' k r hr
      obtain rfl := Option.some.inj hs'
      rw [hturns] at hr
      exact (turnMap_lookup_inv hr).1
    · rintro s' hs'
      obtain rfl := Option.some.inj hs'
      rw [hnext]
      refine nextId_ne_zero fun k hk => ?_
      obtain ⟨r, hr, rfl⟩ := mem_turnMap.mp hk
      exact h.log.room r hr
  · rw [journalOf_concat_of_no_write rfl]
    exact h
  · rw [journalOf_concat_of_write hw] at hlog hdag ⊢
    have hpos := h.counter s hproc
    have hroom := hroom s hproc (w, stop) hw
    have hlive : ∀ s', m'.proc = some s' →
        s' = s.after w (m.disk .turnsLog).length stop := by
      intro s' hs'
      rw [hproc'] at hs'
      split at hs'
      · exact (Option.some.inj hs').symm
      · cases hs'
    refine ⟨hlog, hdag, ?_, ?_, ?_, ?_⟩
    · intro r hr
      rcases List.mem_append.mp hr with hr | hr
      · exact h.positive r hr
      · obtain ⟨t, ht, rfl⟩ := Entry.mem_saved_turns hr
        rw [entryOf_turnId hentry ht]
        exact hpos
    · rintro s' hs'
      rw [hlive s' hs']
      exact (h.parented s hproc).after hentry hpos hroom _ stop
    · rintro s' hs' k r hr
      rw [hlive s' hs'] at hr
      rcases s.after_turns w (m.disk .turnsLog).length stop with hsame | ⟨t, ht, hstop, hnew⟩
      · rw [hsame] at hr
        exact List.mem_append_left _ (h.logged s hproc k r hr)
      · rw [hnew] at hr
        by_cases hk : k = t.1.turnId
        · subst hk
          rw [Finmap.lookup_insert] at hr
          obtain rfl := Option.some.inj hr
          -- The record is in the log before the turn is in the map.
          refine List.mem_append_right _ ?_
          simp only [Entry.saved, ht]
          rw [if_pos]
          · exact List.mem_singleton_self _
          · cases stop with
            | none => rfl
            | some f => simp [whole, hstop f rfl, DataFile.rank]
        · rw [Finmap.lookup_insert_of_ne _ hk] at hr
          exact List.mem_append_left _ (h.logged s hproc k r hr)
    · rintro s' hs'
      rw [hlive s' hs', after_nextTurnId]
      split
      · exact hpos
      next hturn =>
        intro h0
        have hnext := toNat_add_one (hroom hturn)
        rw [h0] at hnext
        cases hnext

/-- A step, or none, keeps the turns in the log. -/
theorem TurnsLogged.perhaps {es : List TurnEvent} {m t : TurnSystem} {e : Option TurnEvent}
    (h : TurnsLogged (journalOf es) m) (hs : Perhaps TurnStep e m t)
    (hkeeps : ∀ e' ∈ e, KeepsLog m e') : TurnsLogged (journalOf (es ++ e.toList)) t := by
  cases e with
  | none =>
      obtain rfl := hs
      rwa [Option.toList_none, List.append_nil]
  | some e => exact h.step hs (hkeeps e rfl)

/-- The log and the head table hold a DAG of turns, and the turns in memory are linked and
all of them in the log. -/
structure TurnsKept (j : Journal) (m : TurnSystem) : Prop where
  log : LogKept j m
  heads : HeadsKept j m
  dag : Dag j
  positive : ∀ r ∈ j.turns, r.turnId ≠ 0
  linked : ∀ s, m.proc = some s → s.Linked
  logged : ∀ s, m.proc = some s → ∀ k r, s.turns.lookup k = some r → r ∈ j.turns
  counter : ∀ s, m.proc = some s → s.nextTurnId ≠ 0

theorem TurnsKept.initial : TurnsKept (journalOf []) TurnSystem.initial where
  log := LogKept.initial
  heads := HeadsKept.initial
  dag := Dag.initial
  positive := by simp [journalOf]
  linked := by simp [TurnSystem.initial]
  logged := by simp [TurnSystem.initial]
  counter := by simp [TurnSystem.initial]

/-- The files outlive the process. -/
theorem TurnsKept.dies {j : Journal} {p : Option TurnStore} {d : DataDir}
    (h : TurnsKept j ⟨p, d⟩) : TurnsKept j ⟨none, d⟩ where
  log := ⟨h.log.layout, h.log.increasing, h.log.room, by simp⟩
  heads := ⟨h.heads.layout⟩
  dag := h.dag
  positive := h.positive
  linked := by simp
  logged := by simp
  counter := by simp

/-- Without the heads. -/
theorem TurnsKept.turnsLogged {j : Journal} {m : TurnSystem} (h : TurnsKept j m) :
    TurnsLogged j m :=
  ⟨h.log, h.dag, h.positive, fun s hs => (h.linked s hs).parented, h.logged, h.counter⟩

/-- **The turn store keeps its DAG**, in memory and in its files. -/
theorem TurnsKept.step {es : List TurnEvent} {m m' : TurnSystem} {e : TurnEvent}
    (h : TurnsKept (journalOf es) m) (hs : TurnStep m e m') (hkeeps : KeepsTurns m e) :
    TurnsKept (journalOf (es ++ [e])) m' := by
  obtain ⟨hlogAligned, hheadsAligned, hroom⟩ := hkeeps
  have hheads := h.heads.step hs hheadsAligned
  obtain ⟨hlog, hdag, hpositive, -, hlogged, hcounter⟩ :=
    h.turnsLogged.step hs ⟨hlogAligned, hroom⟩
  refine ⟨hlog, hheads, hdag, hpositive, ?_, hlogged, hcounter⟩
  rintro s' hs'
  rcases hs.cases with ⟨rfl, s, d', ho, rfl⟩ | ⟨c, now, err, s, rfl, -, -, rfl⟩ |
    ⟨c, now, w, stop, s, hw, -, hproc, hentry, -, -, hproc'⟩
  · obtain rfl := Option.some.inj hs'
    rw [journalOf_concat_of_no_write rfl] at hlog hdag hpositive
    exact hdag.linked hlog hpositive (hlog.fresh s rfl) (h.log.opened ho).1
      (h.heads.opened ho).1
  · exact h.linked s' hs'
  · rw [hproc'] at hs'
    split at hs'
    · obtain rfl := Option.some.inj hs'
      exact (h.linked s hproc).after hentry (h.counter s hproc)
        (hroom s hproc (w, stop) hw) _ stop
    · cases hs'

/-! ### The files of the blob store -/

/-- The record that an index entry stands for lies in the pack. -/
def BlobIndexEntry.Within (e : BlobIndexEntry) (pack : Bytes) : Prop :=
  e.offset.toNat + 52 + e.storedLen.toNat ≤ pack.length

theorem BlobIndexEntry.Within.append {e : BlobIndexEntry} {pack : Bytes} (h : e.Within pack)
    (more : Bytes) : e.Within (pack ++ more) := by
  rw [Within, List.length_append]
  exact h.trans (Nat.le_add_right _ _)

/-- The index file holds `entries`, whose records lie in the pack, and so do those of the
entries in memory, which are among them. -/
structure IndexKept (entries : List (Hash × BlobIndexEntry)) (m : BlobSystem) : Prop where
  layout : ∃ tail, blobsIdxFraming.Layout (m.disk .blobsIdx) entries tail
  within : ∀ e ∈ entries, e.2.Within (m.disk .blobsPack)
  live : ∀ s, m.proc = some s → ∀ hash e, s.index.lookup hash = some e → (hash, e) ∈ entries

theorem IndexKept.initial : IndexKept [] BlobSystem.initial :=
  ⟨⟨[], Framing.layout_nil⟩, by simp, by simp [BlobSystem.initial]⟩

theorem IndexKept.dies {entries : List (Hash × BlobIndexEntry)} {p : Option BlobStore}
    {d : DataDir} (h : IndexKept entries ⟨p, d⟩) : IndexKept entries ⟨none, d⟩ :=
  ⟨h.layout, h.within, by simp⟩

/-- The record of a put lies in the pack, once the put has written it whole. -/
theorem blobEntryAt_within {z : Zstd} {blob : Hash × Bytes} {d : DataDir}
    {stop : Option (Fault DataFile)} (hfits : (putOnto z blob.1 blob.2 d stop).Fits)
    (hwhole : whole stop .blobsIdx 52 = true) :
    (blobEntryAt z blob.2 (d .blobsPack).length).Within
      (putOnto z blob.1 blob.2 d stop .blobsPack) := by
  have hrecord : putOnto z blob.1 blob.2 d stop .blobsPack =
      d .blobsPack ++ blobRecord z blob.1 blob.2 :=
    congrArg (d .blobsPack ++ ·) (written_of_whole (whole_of_rank_lt (by decide) hwhole))
  have hfits := hfits .blobsPack
  rw [hrecord, List.length_append] at hfits
  have hoffset : (UInt64.ofNat (d .blobsPack).length).toNat = (d .blobsPack).length :=
    UInt64.toNat_ofNat_of_lt' (by rw [UInt64.size]; omega)
  have hstored : (UInt32.ofNat (storedForm z blob.2).2.length).toNat ≤
      (storedForm z blob.2).2.length := by
    rw [UInt32.toNat_ofNat']
    exact Nat.mod_le _ _
  rw [BlobIndexEntry.Within, hrecord, blobEntryAt, hoffset]
  simp only [List.length_append, blobRecord, length_headerOf, length_u32Bytes]
  omega

/-- **The index keeps its entries.** What was in the index stays, and a put that returns has
its hash there. -/
theorem IndexKept.step {z : Zstd} {entries : List (Hash × BlobIndexEntry)}
    {m m' : BlobSystem} {e : BlobEvent} (h : IndexKept entries m) (hs : BlobStep z m e m')
    (hal : IdxAligned z m e) :
    ∃ more, IndexKept (entries ++ more) m' ∧
      ∀ s', m'.proc = some s' → e ≠ .opened → ∃ s, m.proc = some s ∧
        ∀ hash entry, s.index.lookup hash = some entry → s'.index.lookup hash = some entry := by
  obtain ⟨tail, hlay⟩ := h.layout
  rcases hs.cases with ⟨rfl, s, d', ho, rfl⟩ | ⟨hash, raw, s, rfl, hproc, hmem, rfl⟩ |
    ⟨blob, stop, s, hw, hproc, habsent, hdisk, hfits, hproc'⟩
  · obtain ⟨hindex, hlay', hframe⟩ := opened_blobs hlay ho
    refine ⟨[], ?_, fun s' _ hne => absurd rfl hne⟩
    rw [List.append_nil]
    refine ⟨⟨[], hlay'⟩, ?_, ?_⟩
    · dsimp only
      rw [hframe .blobsPack (by decide)]
      exact h.within
    · rintro s' hs' hash e he
      obtain rfl := Option.some.inj hs'
      rw [hindex, indexMap] at he
      rcases exists_of_lookup_insertAll he with ⟨b, hb, rfl, rfl⟩ | he
      · exact hb
      · cases he
  · refine ⟨[], ?_, fun s' hs' _ => ⟨s', hs', fun _ _ hl => hl⟩⟩
    rw [List.append_nil]
    exact h
  · obtain ⟨tail', hlay', -⟩ := layout_blobsIdx_put blob (m.disk .blobsPack).length stop hlay
      fun hne => hlay.unread ▸ hal (blob, stop) hw hne
    refine ⟨if whole stop .blobsIdx 52 then
      [(blob.1, blobEntryAt z blob.2 (m.disk .blobsPack).length)] else [], ⟨⟨tail', ?_⟩, ?_, ?_⟩,
      ?_⟩
    · rw [hdisk]
      exact hlay'
    · intro e he
      rcases List.mem_append.mp he with he | he
      · rw [hdisk]
        exact (h.within e he).append _
      · simp only [List.mem_ite_nil_right, List.mem_singleton] at he
        obtain ⟨hwhole, rfl⟩ := he
        rw [hdisk] at hfits ⊢
        exact blobEntryAt_within hfits hwhole
    · rintro s' hs' hash e he
      rw [hproc'] at hs'
      split at hs'
      case isFalse => cases hs'
      obtain rfl := Option.some.inj hs'
      cases stop with
      | some f => exact List.mem_append_left _ (h.live s hproc hash e he)
      | none =>
          by_cases hhash : hash = blob.1
          · subst hhash
            simp only [BlobStore.after, Finmap.lookup_insert, Option.some.injEq] at he
            subst he
            exact List.mem_append_right _ (by simp [whole])
          · simp only [BlobStore.after, Finmap.lookup_insert_of_ne _ hhash] at he
            exact List.mem_append_left _ (h.live s hproc hash e he)
    · rintro s' hs' -
      rw [hproc'] at hs'
      split at hs'
      case isFalse => cases hs'
      obtain rfl := Option.some.inj hs'
      refine ⟨s, hproc, fun hash entry hl => ?_⟩
      cases stop with
      | some f => exact hl
      | none =>
          have hne : hash ≠ blob.1 := by
            rintro rfl
            exact habsent (Finmap.mem_of_lookup_eq_some hl)
          simpa only [BlobStore.after, Finmap.lookup_insert_of_ne _ hne] using hl

/-! ### The three stores -/

variable {z : Zstd} {blake3 : Bytes → Hash}

/-- The event of the turn store that a step is, if it is one. -/
def StoreSystem.turnEvent? (z : Zstd) (blake3 : Bytes → Hash) (m : StoreSystem) :
    StoreAct → Option TurnEvent
  | .opening => some .opened
  | .call c now fault _ => m.proc.bind fun s => c.turnEvent? z blake3 s now fault

/-- The event of the blob store that a step is, if it is one. -/
def StoreSystem.putEvent? (z : Zstd) (blake3 : Bytes → Hash) (m : StoreSystem) :
    StoreAct → Option BlobEvent
  | .opening => some .opened
  | .call c _ fault _ => m.proc.bind fun s => c.putEvent? z blake3 s fault

/-- What the turn store sees of a step. -/
theorem StoreSystem.act_turns {m m' : StoreSystem} {a : StoreAct}
    (h : m.act z blake3 a = some m') :
    ∃ t, Perhaps TurnStep (m.turnEvent? z blake3 a) m.turns t ∧
      (m'.turns = t ∨ m'.turns = ⟨none, t.disk⟩) := by
  rcases StoreSystem.act_cases h with ⟨rfl, s, d', ho, rfl⟩ |
    ⟨c, now, fault, dies, s, x, s', rfl, hproc, -, hparts, hproc'⟩
  · exact ⟨_, .opened (Stores.openDir_ok ho).2, Or.inl rfl⟩
  · refine ⟨⟨some s'.turnStore, m'.disk.only turnFiles⟩, ?_, ?_⟩
    · simp only [turnEvent?, turns, hproc, Option.bind_some, Option.map_some]
      exact hparts.call
    · rcases hproc' with hlive | hdead
      · exact Or.inl (by rw [turns, hlive]; rfl)
      · exact Or.inr (by rw [turns, hdead]; rfl)

/-- The step writes no turn, no head and no index entry behind a torn record, and the turn
counter does not wrap. -/
def KeepsRecords (z : Zstd) (blake3 : Bytes → Hash) (m : StoreSystem) (a : StoreAct) : Prop :=
  (∀ e ∈ m.putEvent? z blake3 a, IdxAligned z m.blobs e) ∧
    ∀ e ∈ m.turnEvent? z blake3 a, KeepsTurns m.turns e

instance (z : Zstd) (blake3 : Bytes → Hash) (m : StoreSystem) (a : StoreAct) :
    Decidable (KeepsRecords z blake3 m a) :=
  inferInstanceAs (Decidable (_ ∧ _))

/-- A step, or none, keeps the turns. -/
theorem TurnsKept.perhaps {es : List TurnEvent} {m t : TurnSystem} {e : Option TurnEvent}
    (h : TurnsKept (journalOf es) m) (hs : Perhaps TurnStep e m t)
    (hkeeps : ∀ e' ∈ e, KeepsTurns m e') : TurnsKept (journalOf (es ++ e.toList)) t := by
  cases e with
  | none =>
      obtain rfl := hs
      rwa [Option.toList_none, List.append_nil]
  | some e => exact h.step hs (hkeeps e rfl)

/-- A put, or none, keeps the index. -/
theorem IndexKept.perhaps {entries : List (Hash × BlobIndexEntry)} {s s' : BlobStore}
    {d d' : DataDir} {e : Option BlobEvent} (h : IndexKept entries ⟨some s, d⟩)
    (hs : Perhaps (BlobStep z) e ⟨some s, d⟩ ⟨some s', d'⟩)
    (hal : ∀ e' ∈ e, IdxAligned z ⟨some s, d⟩ e') (hne : ∀ e' ∈ e, e' ≠ .opened) :
    ∃ more, IndexKept (entries ++ more) ⟨some s', d'⟩ ∧
      ∀ hash entry, s.index.lookup hash = some entry → s'.index.lookup hash = some entry := by
  cases e with
  | none =>
      obtain ⟨hproc, rfl⟩ := BlobSystem.mk.inj hs
      obtain rfl := Option.some.inj hproc
      exact ⟨[], by rwa [List.append_nil], fun _ _ hl => hl⟩
  | some e =>
      obtain ⟨more, hkept, hmono⟩ := h.step hs (hal e rfl)
      obtain ⟨s₀, hs₀, hmono⟩ := hmono s' rfl (hne e rfl)
      obtain rfl := Option.some.inj hs₀
      exact ⟨more, hkept, hmono⟩

/-- A call does not open the directory. -/
theorem putEvent?_ne_opened {c : StoreCall} {s : Stores} {fault : Option (Fault DataFile)} :
    ∀ e ∈ c.putEvent? z blake3 s fault, e ≠ .opened := by
  intro e he
  simp only [StoreCall.putEvent?, Option.mem_def, Option.map_eq_some_iff] at he
  obtain ⟨blob, -, rfl⟩ := he
  rw [BlobStore.putEvent]
  split
  · simp
  · split <;> simp

/-- The files and the process hold together: every turn has its payload in the index. -/
structure StoreKept (es : List TurnEvent) (entries : List (Hash × BlobIndexEntry))
    (m : StoreSystem) : Prop where
  turns : TurnsKept (journalOf es) m.turns
  index : IndexKept entries m.blobs
  payloads : ∀ r ∈ (journalOf es).turns, r.payloadHash ∈ entries.map Prod.fst
  live : ∀ s, m.proc = some s → ∀ k r, s.turnStore.turns.lookup k = some r →
    r.payloadHash ∈ s.blobStore.index

theorem StoreKept.initial : StoreKept [] [] StoreSystem.initial where
  turns := by
    have hinit : StoreSystem.initial.turns = TurnSystem.initial := by
      simp [StoreSystem.turns, StoreSystem.initial, TurnSystem.initial, DataDir.only_empty]
    exact hinit ▸ TurnsKept.initial
  index := by
    have hinit : StoreSystem.initial.blobs = BlobSystem.initial := by
      simp [StoreSystem.blobs, StoreSystem.initial, BlobSystem.initial, DataDir.only_empty]
    exact hinit ▸ IndexKept.initial
  payloads := by simp [journalOf]
  live := by simp [StoreSystem.initial]

/-- The turns in memory after a call are the old ones and the one that the call has written. -/
theorem turns_of_call {e : Option TurnEvent} {s s' : TurnStore} {d d' : DataDir}
    (h : Perhaps TurnStep e ⟨some s, d⟩ ⟨some s', d'⟩) (hne : e ≠ some .opened) {k : UInt64}
    {r : TurnRecord} (hr : s'.turns.lookup k = some r) :
    s.turns.lookup k = some r ∨ ∃ e' ∈ e, ∃ p ∈ e'.write, ∃ t ∈ p.1.turn, t.1 = r := by
  cases e with
  | none =>
      obtain rfl := Option.some.inj (TurnSystem.mk.inj h).1
      exact Or.inl hr
  | some e =>
      rcases TurnStep.cases h with ⟨rfl, -⟩ | ⟨c, now, err, s₀, rfl, -, -, hsame⟩ |
        ⟨c, now, w, stop, s₀, hw, -, hproc, -, -, -, hproc'⟩
      · exact absurd rfl hne
      · obtain rfl := Option.some.inj (TurnSystem.mk.inj hsame).1
        exact Or.inl hr
      · obtain rfl := Option.some.inj hproc
        dsimp only at hproc'
        split at hproc'
        case isFalse => cases hproc'
        obtain rfl := Option.some.inj hproc'
        rcases s.after_turns w (d .turnsLog).length stop with hsame | ⟨t, ht, -, hnew⟩
        · exact Or.inl (hsame ▸ hr)
        · rw [hnew] at hr
          by_cases hk : k = t.1.turnId
          · subst hk
            rw [Finmap.lookup_insert] at hr
            exact Or.inr ⟨e, rfl, (w, stop), hw, t, ht, Option.some.inj hr⟩
          · rw [Finmap.lookup_insert_of_ne _ hk] at hr
            exact Or.inl hr

/-- A call does not open the directory. -/
theorem turnEvent?_ne_opened {c : StoreCall} {s : Stores} {now : UInt64}
    {fault : Option (Fault DataFile)} : c.turnEvent? z blake3 s now fault ≠ some .opened := by
  rw [StoreCall.turnEvent?]
  split
  · simp only [bind, ne_eq, Option.bind_eq_some_iff, not_exists, not_and]
    rintro call - w - he
    obtain he := Option.some.inj he
    rw [Entry.event] at he
    split at he <;> cases he
  · simp

/-- The turns that a step adds to the log. -/
theorem mem_turns_of_event {es : List TurnEvent} {e : Option TurnEvent} {r : TurnRecord}
    (h : r ∈ (journalOf (es ++ e.toList)).turns) :
    r ∈ (journalOf es).turns ∨ ∃ e' ∈ e, ∃ p ∈ e'.write, ∃ t ∈ p.1.turn, t.1 = r := by
  cases e with
  | none =>
      rw [Option.toList_none, List.append_nil] at h
      exact Or.inl h
  | some e =>
      rw [Option.toList_some, journalOf_concat] at h
      refine (List.mem_append.mp h).imp_right fun h => ?_
      cases hw : e.write with
      | none => simp [TurnEvent.saved, hw, Journal.empty] at h
      | some p =>
          rw [saved_of_write (show e.write = some (p.1, p.2) from hw)] at h
          obtain ⟨t, ht, htr⟩ := Entry.mem_saved_turns h
          exact ⟨e, rfl, p, hw, t, ht, htr⟩

/-- **Every step keeps the stores**, as long as it writes behind no torn record. -/
theorem StoreKept.step {es : List TurnEvent} {entries : List (Hash × BlobIndexEntry)}
    {m m' : StoreSystem} {a : StoreAct} (h : StoreKept es entries m)
    (hs : m.act z blake3 a = some m') (hkeeps : KeepsRecords z blake3 m a) :
    ∃ more, StoreKept (es ++ (m.turnEvent? z blake3 a).toList) (entries ++ more) m' := by
  rcases StoreSystem.act_cases hs with ⟨rfl, s, d', ho, rfl⟩ |
    ⟨c, now, fault, dies, s, x, s', rfl, hproc, -, hparts, hproc'⟩
  · obtain ⟨hblobs, hturns⟩ := Stores.openDir_ok ho
    have hkept := h.turns.step (.opened hturns) (hkeeps.2 _ rfl)
    obtain ⟨more, hindex, -⟩ := h.index.step (z := z) (.opened hblobs) (hkeeps.1 _ rfl)
    refine ⟨more, hkept, hindex, ?_, ?_⟩
    · intro r hr
      rw [StoreSystem.turnEvent?, Option.toList_some, journalOf_concat_of_no_write rfl] at hr
      rw [List.map_append]
      exact List.mem_append_left _ (h.payloads r hr)
    · rintro s' hs' k r hr
      obtain rfl := Option.some.inj hs'
      have hlogged := hkept.logged s.turnStore rfl k r hr
      rw [journalOf_concat_of_no_write rfl] at hlogged
      obtain ⟨tail, hlay⟩ := h.index.layout
      rw [(opened_blobs hlay hblobs).1, mem_indexMap]
      exact h.payloads r hlogged
  · have hviews : m.turns = ⟨some s.turnStore, m.disk.only turnFiles⟩ ∧
        m.blobs = ⟨some s.blobStore, m.disk.only blobFiles⟩ := by
      simp only [StoreSystem.turns, StoreSystem.blobs, hproc, Option.map_some, and_self]
    have hevents : m.turnEvent? z blake3 (.call c now fault dies) =
          c.turnEvent? z blake3 s now fault ∧
        m.putEvent? z blake3 (.call c now fault dies) = c.putEvent? z blake3 s fault := by
      simp only [StoreSystem.turnEvent?, StoreSystem.putEvent?, hproc, Option.bind_some,
        and_self]
    obtain ⟨hput, hcall⟩ := hkeeps
    rw [hevents.2, hviews.2] at hput
    rw [hevents.1, hviews.1] at hcall
    rw [hevents.1]
    obtain ⟨hturns, hindex, hpayloads, hlive⟩ := h
    rw [hviews.1] at hturns
    rw [hviews.2] at hindex
    have hturns := hturns.perhaps hparts.call hcall
    obtain ⟨more, hindex, hmono⟩ := hindex.perhaps hparts.put hput putEvent?_ne_opened
    have hpaid : ∀ r, (∃ e ∈ c.turnEvent? z blake3 s now fault, ∃ p ∈ e.write,
        ∃ t ∈ p.1.turn, t.1 = r) → r.payloadHash ∈ s'.blobStore.index := by
      rintro r ⟨e, he, p, hp, t, ht, rfl⟩
      exact hparts.payload e he p hp t ht
    have hmap : ∀ hash ∈ s'.blobStore.index, hash ∈ (entries ++ more).map Prod.fst := by
      intro hash hmem
      obtain ⟨entry, hl⟩ := Finmap.mem_iff.mp hmem
      exact List.mem_map_of_mem (hindex.live _ rfl _ _ hl)
    have hpayloads : ∀ r ∈ (journalOf (es ++
        (c.turnEvent? z blake3 s now fault).toList)).turns,
          r.payloadHash ∈ (entries ++ more).map Prod.fst := by
      intro r hr
      rcases mem_turns_of_event hr with hr | hr
      · rw [List.map_append]
        exact List.mem_append_left _ (hpayloads r hr)
      · exact hmap _ (hpaid r hr)
    rcases hproc' with hnew | hdead
    · refine ⟨more, ?_, ?_, hpayloads, ?_⟩
      · rwa [StoreSystem.turns, hnew]
      · rwa [StoreSystem.blobs, hnew]
      · rintro s₁ hs₁ k r hr
        obtain rfl := Option.some.inj (hnew.symm.trans hs₁)
        rcases turns_of_call hparts.call turnEvent?_ne_opened hr with hr | hr
        · obtain ⟨entry, hl⟩ := Finmap.mem_iff.mp (hlive s hproc k r hr)
          exact Finmap.mem_of_lookup_eq_some (hmono _ _ hl)
        · exact hpaid r hr
    · refine ⟨more, ?_, ?_, hpayloads, ?_⟩
      · rw [StoreSystem.turns, hdead]
        exact hturns.dies
      · rw [StoreSystem.blobs, hdead]
        exact hindex.dies
      · rintro s₁ hs₁
        cases hdead.symm.trans hs₁

/-! ### Sound stores -/

/-- The turn DAG is linked, every turn has a payload in the index, and the records of the
index lie in the pack. -/
structure Stores.Sound (s : Stores) (pack : Bytes) : Prop where
  linked : s.turnStore.Linked
  payload : ∀ k r, s.turnStore.turns.lookup k = some r → r.payloadHash ∈ s.blobStore.index
  within : ∀ hash e, s.blobStore.index.lookup hash = some e → e.Within pack

theorem StoreKept.sound {es : List TurnEvent} {entries : List (Hash × BlobIndexEntry)}
    {m : StoreSystem} (h : StoreKept es entries m) {s : Stores} (hs : m.proc = some s) :
    s.Sound (m.disk .blobsPack) where
  linked := h.turns.linked s.turnStore (by rw [StoreSystem.turns, hs]; rfl)
  payload := h.live s hs
  within hash e he := by
    have hmem := h.index.live s.blobStore (by rw [StoreSystem.blobs, hs]; rfl) hash e he
    have hwithin := h.index.within _ hmem
    dsimp only [StoreSystem.blobs] at hwithin
    rwa [DataDir.only_of_mem m.disk (by decide)] at hwithin

/-- The stores are kept over every run that writes behind no torn record. -/
theorem storeKept_of_run {acts : List StoreAct} {m : StoreSystem}
    (h : Run (Guarded (KeepsRecords z blake3) (Steps (StoreSystem.act z blake3)))
      StoreSystem.initial acts m) : ∃ es entries, StoreKept es entries m := by
  refine h.invariant (I := fun _ m => ∃ es entries, StoreKept es entries m)
    ⟨[], [], StoreKept.initial⟩ ?_
  rintro _ m a m' ⟨es, entries, hkept⟩ ⟨hkeeps, hs⟩
  obtain ⟨more, hkept⟩ := hkept.step hs hkeeps
  exact ⟨_, _, hkept⟩

/-- **The running store is sound** in every state of such a run. -/
theorem sound_of_run {acts : List StoreAct} {m : StoreSystem}
    (h : Run (Guarded (KeepsRecords z blake3) (Steps (StoreSystem.act z blake3)))
      StoreSystem.initial acts m) {s : Stores} (hs : m.proc = some s) :
    s.Sound (m.disk .blobsPack) := by
  obtain ⟨es, entries, hkept⟩ := storeKept_of_run h
  exact hkept.sound hs

end Cxdb
