import Cxdb.TurnSystem

/-!
# What the Turn Files Keep

The invariants of the three record files over runs with every kind of event: calls that
return, calls that fail, crashes and reopenings. Each file has an invariant of its own and
a condition of its own, so that a result asks only for the conditions it depends on.

A file keeps its records as long as no call writes behind a torn record (`Aligned`). The
ids in the log increase as long as the counter does not wrap (`HasRoom`), and `turns.meta`
needs type ids that fit their length field.

## Main results

* `LogKept.step`, `MetaKept.step`, `HeadsKept.step`: every step keeps the records.
* `shows_of_kept`: the directory opens, and the store it opens to shows what the run wrote.
-/

open ByteFormat FaultyDisk RecordLog LastWrite Transition

namespace Cxdb

/-! ### Conditions on a step -/

/-- The event puts no byte into `file` behind a torn record. -/
def Aligned {α : Type} (F : Framing StoreError α) (file : DataFile) (m : TurnSystem)
    (e : TurnEvent) : Prop :=
  ∀ p ∈ e.write, written p.2 file (p.1.bytes (m.disk .turnsLog).length file) ≠ [] →
    F.unread (m.disk file) = []

instance {α : Type} (F : Framing StoreError α) (file : DataFile) (m : TurnSystem)
    (e : TurnEvent) : Decidable (Aligned F file m e) :=
  inferInstanceAs (Decidable (∀ p ∈ e.write, _))

/-- The turn counter does not wrap. -/
def HasRoom (m : TurnSystem) (e : TurnEvent) : Prop :=
  ∀ s ∈ m.proc, ∀ p ∈ e.write, p.1.turn ≠ none → s.nextTurnId.toNat + 1 < 2 ^ 64

instance (m : TurnSystem) (e : TurnEvent) : Decidable (HasRoom m e) :=
  inferInstanceAs (Decidable (∀ s ∈ m.proc, ∀ p ∈ e.write, _))

/-- The type id the event writes, if any, fits its length field. -/
def TurnEvent.TypeIdFits (e : TurnEvent) : Prop :=
  ∀ p ∈ e.write, p.1.TypeIdFits

instance (e : TurnEvent) : Decidable e.TypeIdFits :=
  inferInstanceAs (Decidable (∀ p ∈ e.write, p.1.TypeIdFits))

/-! ### Counters -/

/-- Every key is below the counter that `update_counters` computes. -/
theorem lt_nextId {α : Type} {m : HashMap UInt64 α} {k : UInt64} (default : UInt64)
    (hk : k ∈ m) (hroom : ∀ k ∈ m, k.toNat + 1 < 2 ^ 64) : k < nextId m default := by
  obtain ⟨x, hx⟩ : ∃ x : UInt64, m.keys.max = x :=
    Finset.max_of_mem (Finmap.mem_keys.mpr hk)
  have hxm : x ∈ m := Finmap.mem_keys.mp (Finset.mem_of_max hx)
  have hkx : k ≤ x := Finset.le_max_of_eq (Finmap.mem_keys.mpr hk) hx
  have hnext : nextId m default = x + 1 := by
    unfold nextId
    rw [hx]
  rw [hnext, UInt64.lt_iff_toNat_lt, toNat_add_one (hroom x hxm)]
  have := UInt64.le_iff_toNat_le.mp hkx
  omega

theorem mem_turnMap {turns : List TurnRecord} {k : UInt64} :
    k ∈ turnMap turns ↔ ∃ r ∈ turns, r.turnId = k :=
  mem_insertAll_empty

theorem mem_headMap {heads : List ContextHead} {k : UInt64} :
    k ∈ headMap heads ↔ ∃ h ∈ heads, h.contextId = k :=
  mem_insertAll_empty

/-- An appended turn has the id the counter stands at. -/
theorem entryOf_turnId {s : TurnStore} {now : UInt64} {c : TurnCall} {w : Entry}
    {t : TurnRecord × TurnMeta} (h : s.entryOf now c = .ok w) (ht : w.turn = some t) :
    t.1.turnId = s.nextTurnId := by
  cases c with
  | createContext base | forkContext base =>
      obtain ⟨b, -, rfl⟩ := entryOf_create h
      simp at ht
  | appendTurn a =>
      obtain ⟨p, -, rfl⟩ := entryOf_append h
      obtain rfl := Option.some.inj ht
      rfl

/-- A call that appends no turn leaves the counter, one that does moves it by one. -/
theorem after_nextTurnId (s : TurnStore) (w : Entry) (offset : ℕ)
    (stop : Option (Fault DataFile)) :
    (s.after w offset stop).nextTurnId =
      if w.turn = none then s.nextTurnId else s.nextTurnId + 1 := by
  obtain ⟨_ | t, head⟩ := w <;> rcases stop with _ | f
  · rfl
  · simp only [TurnStore.after]
    split <;> rfl
  · rfl
  · simp only [TurnStore.after]
    split <;> rfl

/-! ### The saved records of an entry -/

/-- A turn is saved only by an entry that has one. -/
theorem Entry.mem_saved_turns {w : Entry} {stop : Option (Fault DataFile)} {r : TurnRecord}
    (h : r ∈ (w.saved stop).turns) : ∃ t, w.turn = some t ∧ t.1 = r := by
  cases ht : w.turn with
  | none => simp [Entry.saved, ht] at h
  | some t =>
      simp only [Entry.saved, ht, List.mem_ite_nil_right, List.mem_singleton] at h
      exact ⟨t, rfl, h.2.symm⟩

theorem Entry.mem_saved_heads {w : Entry} {stop : Option (Fault DataFile)} {h : ContextHead}
    (hh : h ∈ (w.saved stop).heads) : h = w.head := by
  simp only [Entry.saved, List.mem_ite_nil_right, List.mem_singleton] at hh
  exact hh.2

/-- Metadata is saved only after its turn. -/
theorem Entry.mem_saved_metas {w : Entry} {stop : Option (Fault DataFile)}
    {p : UInt64 × TurnMeta} (h : p ∈ (w.saved stop).metas) :
    ∃ t, w.turn = some t ∧ (w.saved stop).turns = [t.1] ∧ p = (t.1.turnId, t.2) := by
  cases ht : w.turn with
  | none => simp [Entry.saved, ht] at h
  | some t =>
      simp only [Entry.saved, ht, List.mem_ite_nil_right, List.mem_singleton] at h
      refine ⟨t, rfl, ?_, h.2⟩
      simp only [Entry.saved, ht]
      rw [if_pos (whole_of_rank_lt (by decide) h.1)]

/-- A call that returns has saved its entry. -/
theorem Entry.saved_none (w : Entry) :
    w.saved none =
      ⟨(w.turn.map Prod.fst).toList, (w.turn.map fun t => (t.1.turnId, t.2)).toList,
        [w.head]⟩ := by
  obtain ⟨_ | t, head⟩ := w <;> simp [Entry.saved, whole]

theorem saved_of_write {e : TurnEvent} {w : Entry} {stop : Option (Fault DataFile)}
    (h : e.write = some (w, stop)) : e.saved = w.saved stop := by
  simp [TurnEvent.saved, h]

theorem journalOf_concat_of_write {es : List TurnEvent} {e : TurnEvent} {w : Entry}
    {stop : Option (Fault DataFile)} (h : e.write = some (w, stop)) :
    journalOf (es ++ [e]) = journalOf es ++ w.saved stop := by
  rw [journalOf_concat, saved_of_write h]

theorem journalOf_concat_of_no_write {es : List TurnEvent} {e : TurnEvent}
    (h : e.write = none) : journalOf (es ++ [e]) = journalOf es := by
  rw [journalOf_concat]
  simp only [TurnEvent.saved, h]
  exact congr (congr (congrArg Journal.mk (List.append_nil _)) (List.append_nil _))
    (List.append_nil _)

/-! ### The log -/

/-- The log holds the turns of the journal, with increasing ids, all of them below the
counter of the process. -/
structure LogKept (j : Journal) (m : TurnSystem) : Prop where
  layout : ∃ tail, turnsLogFraming.Layout (m.disk .turnsLog) j.turns tail
  increasing : (j.turns.map TurnRecord.turnId).Pairwise (· < ·)
  room : ∀ r ∈ j.turns, r.turnId.toNat + 1 < 2 ^ 64
  fresh : ∀ s, m.proc = some s → ∀ r ∈ j.turns, r.turnId < s.nextTurnId

theorem LogKept.initial : LogKept (journalOf []) TurnSystem.initial :=
  ⟨⟨[], Framing.layout_nil⟩, List.Pairwise.nil, by simp [journalOf], by simp [TurnSystem.initial]⟩

/-- Opening reads back the turns of the log. -/
theorem LogKept.opened {j : Journal} {m : TurnSystem} {s : TurnStore} {d' : DataDir}
    (h : LogKept j m) (ho : TurnStore.openDir m.disk = .ok (s, d')) :
    s.turns = turnMap j.turns ∧ s.nextTurnId = nextId (turnMap j.turns) 1 ∧
      turnsLogFraming.Layout (d' .turnsLog) j.turns [] := by
  obtain ⟨tail, hlay⟩ := h.layout
  obtain ⟨hlog, -, -, hnext, -⟩ := openDir_ok ho
  rw [loadTurns_of_layout hlay] at hlog
  simp only [Except.ok.injEq, Prod.mk.injEq] at hlog
  obtain ⟨⟨hturns, -⟩, hfile⟩ := hlog
  refine ⟨hturns.symm, by rw [hnext, ← hturns], ?_⟩
  have hkept := hlay.kept
  rw [kept_turnsLog, List.append_nil] at hkept
  rwa [← hfile, kept_turnsLog, List.append_nil]

/-- **The log keeps its turns.** -/
theorem LogKept.step {es : List TurnEvent} {m m' : TurnSystem} {e : TurnEvent}
    (h : LogKept (journalOf es) m) (hs : TurnStep m e m')
    (hal : Aligned turnsLogFraming .turnsLog m e) (hroom : HasRoom m e) :
    LogKept (journalOf (es ++ [e])) m' := by
  rcases hs.cases with ⟨rfl, s, d', ho, rfl⟩ | ⟨c, now, err, s, rfl, -, -, rfl⟩ |
    ⟨c, now, w, stop, s, hw, -, hproc, hentry, hdisk, -, hproc'⟩
  · rw [journalOf_concat_of_no_write rfl]
    obtain ⟨-, hnext, hlay⟩ := h.opened ho
    refine ⟨⟨[], hlay⟩, h.increasing, h.room, ?_⟩
    rintro s' hs' r hr
    obtain rfl := Option.some.inj hs'
    rw [hnext]
    refine lt_nextId 1 (mem_turnMap.mpr ⟨r, hr, rfl⟩) fun k hk => ?_
    obtain ⟨r', hr', rfl⟩ := mem_turnMap.mp hk
    exact h.room r' hr'
  · rwa [journalOf_concat_of_no_write rfl]
  · rw [journalOf_concat_of_write hw]
    obtain ⟨tail, hlay⟩ := h.layout
    -- The only turn a call can save has the id the counter stood at.
    have hid : ∀ r ∈ (w.saved stop).turns, w.turn ≠ none ∧ r.turnId = s.nextTurnId := by
      intro r hr
      obtain ⟨t, ht, rfl⟩ := Entry.mem_saved_turns hr
      exact ⟨by simp [ht], entryOf_turnId hentry ht⟩
    refine ⟨⟨tail ++ w.tails (m.disk .turnsLog).length stop .turnsLog, ?_⟩, ?_, ?_, ?_⟩
    · rw [hdisk]
      exact layout_turnsLog_call w _ stop hlay fun hne => hlay.unread ▸ hal (w, stop) hw hne
    · rw [Journal.append_turns, List.map_append, List.pairwise_append]
      refine ⟨h.increasing, ?_, ?_⟩
      · cases ht : w.turn with
        | none => simp [Entry.saved, ht]
        | some t =>
            simp only [Entry.saved, ht]
            split <;> simp
      · intro x hx y hy
        obtain ⟨r, hr, rfl⟩ := List.mem_map.mp hx
        obtain ⟨r', hr', rfl⟩ := List.mem_map.mp hy
        rw [(hid r' hr').2]
        exact h.fresh s hproc r hr
    · intro r hr
      rcases List.mem_append.mp hr with hr | hr
      · exact h.room r hr
      · rw [(hid r hr).2]
        exact hroom s hproc (w, stop) hw (hid r hr).1
    · intro s' hs' r hr
      rw [hproc'] at hs'
      split at hs'
      case isFalse => exact absurd hs' (by simp)
      obtain rfl := Option.some.inj hs'
      rw [after_nextTurnId]
      rcases List.mem_append.mp hr with hr | hr
      · have hlt := h.fresh s hproc r hr
        split
        · exact hlt
        · next hne =>
            rw [UInt64.lt_iff_toNat_lt] at hlt ⊢
            rw [toNat_add_one (hroom s hproc (w, stop) hw hne)]
            omega
      · rw [(hid r hr).2, if_neg (hid r hr).1, UInt64.lt_iff_toNat_lt,
          toNat_add_one (hroom s hproc (w, stop) hw (hid r hr).1)]
        omega

/-! ### The metadata -/

/-- The metadata file holds the metadata of the journal, each for a turn of its own. -/
structure MetaKept (j : Journal) (m : TurnSystem) : Prop where
  layout : ∃ tail, turnsMetaFraming.Layout (m.disk .turnsMeta) j.metas tail
  increasing : (j.metas.map Prod.fst).Pairwise (· < ·)
  ofTurn : ∀ p ∈ j.metas, ∃ r ∈ j.turns, r.turnId = p.1

theorem MetaKept.initial : MetaKept (journalOf []) TurnSystem.initial :=
  ⟨⟨[], Framing.layout_nil⟩, List.Pairwise.nil, by simp [journalOf]⟩

/-- Opening reads back the metadata of the file. -/
theorem MetaKept.opened {j : Journal} {m : TurnSystem} {s : TurnStore} {d' : DataDir}
    (h : MetaKept j m) (ho : TurnStore.openDir m.disk = .ok (s, d')) :
    s.turnMeta = metaMap j.metas := by
  obtain ⟨tail, hlay⟩ := h.layout
  obtain ⟨-, hmeta, -⟩ := openDir_ok ho
  rw [loadMeta_of_layout hlay] at hmeta
  simp only [Except.ok.injEq, Prod.mk.injEq] at hmeta
  exact hmeta.1.symm

/-- **The metadata file keeps its records.** -/
theorem MetaKept.step {es : List TurnEvent} {m m' : TurnSystem} {e : TurnEvent}
    (h : MetaKept (journalOf es) m) (hlog : LogKept (journalOf es) m) (hs : TurnStep m e m')
    (hal : Aligned turnsMetaFraming .turnsMeta m e) (hfits : e.TypeIdFits) :
    MetaKept (journalOf (es ++ [e])) m' := by
  obtain ⟨tail, hlay⟩ := h.layout
  rcases hs.cases with ⟨rfl, s, d', ho, rfl⟩ | ⟨c, now, err, s, rfl, -, -, rfl⟩ |
    ⟨c, now, w, stop, s, hw, -, hproc, hentry, hdisk, -, -⟩
  · rw [journalOf_concat_of_no_write rfl]
    obtain ⟨-, hmeta, -⟩ := openDir_ok ho
    rw [loadMeta_of_layout hlay] at hmeta
    simp only [Except.ok.injEq, Prod.mk.injEq] at hmeta
    exact ⟨⟨_, hmeta.2 ▸ hlay.kept⟩, h.increasing, h.ofTurn⟩
  · rwa [journalOf_concat_of_no_write rfl]
  · rw [journalOf_concat_of_write hw]
    refine ⟨⟨tail ++ w.tails (m.disk .turnsLog).length stop .turnsMeta, ?_⟩, ?_, ?_⟩
    · rw [hdisk]
      exact layout_turnsMeta_call w _ stop hlay (hfits (w, stop) hw) fun hne =>
        hlay.unread ▸ hal (w, stop) hw hne
    · rw [Journal.append_metas, List.map_append, List.pairwise_append]
      refine ⟨h.increasing, ?_, ?_⟩
      · cases ht : w.turn with
        | none => simp [Entry.saved, ht]
        | some t =>
            simp only [Entry.saved, ht]
            split <;> simp
      · intro x hx y hy
        obtain ⟨p, hp, rfl⟩ := List.mem_map.mp hx
        obtain ⟨q, hq, rfl⟩ := List.mem_map.mp hy
        obtain ⟨r, hr, hrp⟩ := h.ofTurn p hp
        obtain ⟨t, ht, -, rfl⟩ := Entry.mem_saved_metas hq
        change p.1 < t.1.turnId
        rw [← hrp, entryOf_turnId hentry ht]
        exact hlog.fresh s hproc r hr
    · intro p hp
      rcases List.mem_append.mp hp with hp | hp
      · obtain ⟨r, hr, hrp⟩ := h.ofTurn p hp
        exact ⟨r, List.mem_append_left _ hr, hrp⟩
      · obtain ⟨t, -, hturns, rfl⟩ := Entry.mem_saved_metas hp
        exact ⟨t.1, List.mem_append_right _ (by simp [hturns]), rfl⟩

/-! ### The heads -/

/-- The head table holds the heads of the journal. -/
structure HeadsKept (j : Journal) (m : TurnSystem) : Prop where
  layout : ∃ tail, headsTblFraming.Layout (m.disk .headsTbl) j.heads tail

theorem HeadsKept.initial : HeadsKept (journalOf []) TurnSystem.initial :=
  ⟨⟨[], Framing.layout_nil⟩⟩

/-- Opening reads back the heads of the table. -/
theorem HeadsKept.opened {j : Journal} {m : TurnSystem} {s : TurnStore} {d' : DataDir}
    (h : HeadsKept j m) (ho : TurnStore.openDir m.disk = .ok (s, d')) :
    s.heads = headMap j.heads ∧ s.nextContextId = nextId (headMap j.heads) 1 := by
  obtain ⟨tail, hlay⟩ := h.layout
  obtain ⟨-, -, hheads, -, hnext⟩ := openDir_ok ho
  rw [loadHeads_of_layout hlay] at hheads
  simp only [Except.ok.injEq, Prod.mk.injEq] at hheads
  exact ⟨hheads.1.symm, by rw [hnext, ← hheads.1]⟩

/-- **The head table keeps its records.** -/
theorem HeadsKept.step {es : List TurnEvent} {m m' : TurnSystem} {e : TurnEvent}
    (h : HeadsKept (journalOf es) m) (hs : TurnStep m e m')
    (hal : Aligned headsTblFraming .headsTbl m e) :
    HeadsKept (journalOf (es ++ [e])) m' := by
  obtain ⟨tail, hlay⟩ := h.layout
  rcases hs.cases with ⟨rfl, s, d', ho, rfl⟩ | ⟨c, now, err, s, rfl, -, -, rfl⟩ |
    ⟨c, now, w, stop, s, hw, -, -, -, hdisk, -, -⟩
  · rw [journalOf_concat_of_no_write rfl]
    obtain ⟨-, -, hheads, -⟩ := openDir_ok ho
    rw [loadHeads_of_layout hlay] at hheads
    simp only [Except.ok.injEq, Prod.mk.injEq] at hheads
    exact ⟨⟨_, hheads.2 ▸ hlay.kept⟩⟩
  · rwa [journalOf_concat_of_no_write rfl]
  · rw [journalOf_concat_of_write hw]
    refine ⟨⟨tail ++ w.tails (m.disk .turnsLog).length stop .headsTbl, ?_⟩⟩
    rw [hdisk]
    exact layout_headsTbl_call w _ stop hlay fun hne => hlay.unread ▸ hal (w, stop) hw hne

/-! ### What a store shows -/

/-- The store has every turn that was acknowledged, with its metadata, and for every
context the head of the last call that wrote its head record whole: the last acknowledged
call, unless one that was cut off later got that far. -/
structure Shows (s : TurnStore) (es : List TurnEvent) : Prop where
  turns : ∀ w ∈ ackedEntries es, ∀ t, w.turn = some t →
    s.turns.lookup t.1.turnId = some t.1 ∧ s.turnMeta.lookup t.1.turnId = some t.2
  heads : ∀ pre e post h, es = pre ++ e :: post → h ∈ e.saved.heads →
    (∀ e' ∈ post, ∀ h' ∈ e'.saved.heads, h'.contextId ≠ h.contextId) →
    s.heads.lookup h.contextId = some h

/-- An acknowledged call has saved its entry. -/
theorem saved_of_acked {es : List TurnEvent} {w : Entry} (h : w ∈ ackedEntries es) :
    (∀ t, w.turn = some t → t.1 ∈ (journalOf es).turns ∧
      (t.1.turnId, t.2) ∈ (journalOf es).metas) ∧ w.head ∈ (journalOf es).heads := by
  obtain ⟨e, he, hw⟩ := List.mem_filterMap.mp h
  cases e with
  | acked c now w' =>
      obtain rfl := Option.some.inj hw
      have hsaved : (TurnEvent.acked c now w').saved = w'.saved none := saved_of_write rfl
      simp only [journalOf, List.mem_flatMap]
      refine ⟨fun t ht => ⟨⟨_, he, ?_⟩, _, he, ?_⟩, _, he, ?_⟩ <;>
        simp [Entry.saved_none, *]
  | _ => simp at hw

theorem turnMap_lookup {turns : List TurnRecord} {r : TurnRecord}
    (hinc : (turns.map TurnRecord.turnId).Pairwise (· < ·)) (hr : r ∈ turns) :
    (turnMap turns).lookup r.turnId = some r :=
  lookup_insertAll_of_mem (hinc.imp fun h => ne_of_lt h) hr

theorem metaMap_lookup {metas : List (UInt64 × TurnMeta)} {p : UInt64 × TurnMeta}
    (hinc : (metas.map Prod.fst).Pairwise (· < ·)) (hp : p ∈ metas) :
    (metaMap metas).lookup p.1 = some p.2 :=
  lookup_insertAll_of_mem (hinc.imp fun h => ne_of_lt h) hp

/-- A store with the maps of the journal shows what the run wrote. -/
theorem shows_of_maps {es : List TurnEvent} {m : TurnSystem} {s : TurnStore}
    (hlog : LogKept (journalOf es) m) (hmeta : MetaKept (journalOf es) m)
    (hturns : s.turns = turnMap (journalOf es).turns)
    (hmetas : s.turnMeta = metaMap (journalOf es).metas)
    (hheads : s.heads = headMap (journalOf es).heads) : Shows s es := by
  constructor
  · intro w hw t ht
    obtain ⟨htm, hmm⟩ := (saved_of_acked hw).1 t ht
    rw [hturns, hmetas]
    exact ⟨turnMap_lookup hlog.increasing htm, metaMap_lookup hmeta.increasing hmm⟩
  · rintro pre e post h rfl hh hlast
    obtain ⟨before, after, hsplit⟩ := List.append_of_mem hh
    -- One event writes at most one head, so `h` is the last one for its context.
    have hafter : after = [] := by
      have hlen : e.saved.heads.length ≤ 1 := by
        unfold TurnEvent.saved
        split
        · simp [Journal.empty]
        · simp only [Entry.saved]
          split <;> simp
      rw [hsplit] at hlen
      simp only [List.length_append, List.length_cons] at hlen
      exact List.eq_nil_of_length_eq_zero (by omega)
    rw [hheads]
    have hj : (journalOf (pre ++ e :: post)).heads =
        ((journalOf pre).heads ++ before) ++ h :: (journalOf post).heads := by
      simp [journalOf, hsplit, hafter]
    rw [hj]
    refine lookup_insertAll_of_last rfl ?_
    intro h' hh'
    obtain ⟨e', he', hmem⟩ := List.mem_flatMap.mp hh'
    exact hlast e' he' h' hmem

/-- What is behind the records of the three logs. -/
def Tails.ofLogs (log turnsMeta heads : Bytes) : Tails
  | .turnsLog => log
  | .turnsMeta => turnsMeta
  | .headsTbl => heads
  | _ => []

/-- **Opening shows what the run wrote.** -/
theorem shows_of_kept {es : List TurnEvent} {m : TurnSystem}
    (hlog : LogKept (journalOf es) m) (hmeta : MetaKept (journalOf es) m)
    (hheads : HeadsKept (journalOf es) m) :
    ∃ s d', TurnStore.openDir m.disk = .ok (s, d') ∧ Shows s es := by
  obtain ⟨t₁, h₁⟩ := hlog.layout
  obtain ⟨t₂, h₂⟩ := hmeta.layout
  obtain ⟨t₃, h₃⟩ := hheads.layout
  obtain ⟨d', ho, -⟩ := openDir_of_onDisk (t := Tails.ofLogs t₁ t₂ t₃) ⟨h₁, h₂, h₃⟩
  exact ⟨_, d', ho, shows_of_maps hlog hmeta rfl rfl rfl⟩

end Cxdb
