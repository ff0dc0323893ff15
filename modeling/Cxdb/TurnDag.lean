import Cxdb.ParentChain
import Cxdb.TurnMirror

/-!
# The Turn DAG

Turns point to their parents, contexts to their newest turn. Parents are stored, have
smaller ids and a depth smaller by one, so every context has a history in the sense of
`ParentChain`, and the reads of the store (`get_last`, `get_before`, `get_first_turn`) are
walks along it.

## Main results

* `Dag.step`: every call extends the DAG.
* `TurnStore.Linked.getLast`, `TurnStore.Linked.getBefore` and
  `TurnStore.WellFormed.getFirstTurn`: what the reads return.
* `dag_wellFormed`: the DAG in every state of every quiet run.
-/

open ByteFormat FaultyDisk RecordLog LastWrite Transition ParentChain

namespace Cxdb

/-! ### Lookups -/

theorem baseOf_ok {s : TurnStore} {base : UInt64} {q : UInt64 × UInt32}
    (h : s.baseOf base = .ok q) :
    (base = 0 ∧ q = (0, 0)) ∨
      (base ≠ 0 ∧ ∃ r, s.turns.lookup base = some r ∧ q = (r.turnId, r.depth)) := by
  unfold TurnStore.baseOf at h
  split at h
  · next hb => exact Or.inl ⟨hb, (Except.ok.inj h).symm⟩
  next hb =>
  split at h
  · exact absurd h (by simp)
  · next r hr => exact Or.inr ⟨hb, r, hr, (Except.ok.inj h).symm⟩

/-- The parent of a new turn: none, or a stored turn one level up. The context is looked
up only when no parent is given. -/
theorem parentOf_ok {s : TurnStore} {c p : UInt64} {q : UInt64 × UInt32}
    (h : s.parentOf c p = .ok q) :
    (p ≠ 0 ∧ ∃ r, s.turns.lookup p = some r ∧ q = (r.turnId, r.depth + 1)) ∨
      (p = 0 ∧ ∃ head, s.heads.lookup c = some head ∧
        (head.headTurnId = 0 ∧ q = (0, 0) ∨
          head.headTurnId ≠ 0 ∧ ∃ r, s.turns.lookup head.headTurnId = some r ∧
            q = (r.turnId, r.depth + 1))) := by
  unfold TurnStore.parentOf at h
  split at h
  · next hp =>
    split at h
    · exact absurd h (by simp)
    · next r hr => exact Or.inl ⟨hp, r, hr, (Except.ok.inj h).symm⟩
  next hp =>
  refine Or.inr ⟨not_not.mp hp, ?_⟩
  split at h
  · exact absurd h (by simp)
  next head hhead =>
  refine ⟨head, hhead, ?_⟩
  split at h
  · next h0 => exact Or.inl ⟨h0, (Except.ok.inj h).symm⟩
  next h0 =>
  split at h
  · exact absurd h (by simp)
  · next r hr => exact Or.inr ⟨h0, r, hr, (Except.ok.inj h).symm⟩

/-- What is found in a replayed turn map is a turn of the log, under its own id. -/
theorem turnMap_lookup_inv {turns : List TurnRecord} {k : UInt64} {r : TurnRecord}
    (h : (turnMap turns).lookup k = some r) : r ∈ turns ∧ r.turnId = k := by
  rcases exists_of_lookup_insertAll h with ⟨b, hb, hkey, hval⟩ | h
  · exact ⟨hval ▸ hb, hval ▸ hkey⟩
  · simp at h

theorem headMap_lookup_inv {heads : List ContextHead} {k : UInt64} {h : ContextHead}
    (hl : (headMap heads).lookup k = some h) : h ∈ heads ∧ h.contextId = k := by
  rcases exists_of_lookup_insertAll hl with ⟨b, hb, hkey, hval⟩ | hl
  · exact ⟨hval ▸ hb, hval ▸ hkey⟩
  · simp at hl

/-! ### The DAG of a journal -/

/-- Parents come with smaller ids and, up to overflow, depths smaller by one, and heads
name turns. -/
structure Dag (j : Journal) : Prop where
  turn : ∀ r ∈ j.turns, (r.parentTurnId = 0 ∧ r.depth = 0) ∨
    ∃ p ∈ j.turns, p.turnId = r.parentTurnId ∧ p.turnId < r.turnId ∧
      r.depth = p.depth + 1
  head : ∀ h ∈ j.heads, (h.headTurnId = 0 ∧ h.headDepth = 0) ∨
    ∃ r ∈ j.turns, r.turnId = h.headTurnId ∧ r.depth = h.headDepth

theorem Dag.initial : Dag (journalOf []) := ⟨by simp [journalOf], by simp [journalOf]⟩

/-- The turn of an entry hangs off the DAG. -/
theorem entryOf_turn {j : Journal} {s : TurnStore} {now : UInt64} {c : TurnCall} {w : Entry}
    {t : TurnRecord × TurnMeta} (hw : s.entryOf now c = .ok w) (ht : w.turn = some t)
    (hturns : ∀ k r, s.turns.lookup k = some r → r ∈ j.turns)
    (hfresh : ∀ r ∈ j.turns, r.turnId < s.nextTurnId) :
    (t.1.parentTurnId = 0 ∧ t.1.depth = 0) ∨
      ∃ p ∈ j.turns, p.turnId = t.1.parentTurnId ∧ p.turnId < t.1.turnId ∧
        t.1.depth = p.depth + 1 := by
  cases c with
  | createContext base | forkContext base =>
      obtain ⟨b, -, rfl⟩ := entryOf_create hw
      simp at ht
  | appendTurn a =>
      obtain ⟨q, hq, rfl⟩ := entryOf_append hw
      obtain rfl := Option.some.inj ht
      have hstored : ∀ k r, s.turns.lookup k = some r → q = (r.turnId, r.depth + 1) →
          ∃ p ∈ j.turns, p.turnId = q.1 ∧ p.turnId < s.nextTurnId ∧ q.2 = p.depth + 1 := by
        rintro k r hr rfl
        have hmem := hturns k r hr
        exact ⟨r, hmem, rfl, hfresh r hmem, rfl⟩
      rcases parentOf_ok hq with ⟨-, r, hr, hqr⟩ | ⟨-, head, -, ⟨-, hqr⟩ | ⟨-, r, hr, hqr⟩⟩
      · exact Or.inr (hstored _ r hr hqr)
      · exact Or.inl (by simp [AppendArgs.record, hqr])
      · exact Or.inr (hstored _ r hr hqr)

/-- The head of an entry names its turn, or a turn of the DAG. -/
theorem entryOf_head {j : Journal} {s : TurnStore} {now : UInt64} {c : TurnCall} {w : Entry}
    (hw : s.entryOf now c = .ok w)
    (hturns : ∀ k r, s.turns.lookup k = some r → r ∈ j.turns) :
    (w.head.headTurnId = 0 ∧ w.head.headDepth = 0) ∨
      (∃ t, w.turn = some t ∧ t.1.turnId = w.head.headTurnId ∧
        t.1.depth = w.head.headDepth) ∨
      ∃ r ∈ j.turns, r.turnId = w.head.headTurnId ∧ r.depth = w.head.headDepth := by
  cases c with
  | createContext base | forkContext base =>
      obtain ⟨b, hb, rfl⟩ := entryOf_create hw
      rcases baseOf_ok hb with ⟨-, rfl⟩ | ⟨-, r, hr, rfl⟩
      · exact Or.inl ⟨rfl, rfl⟩
      · exact Or.inr (Or.inr ⟨r, hturns _ r hr, rfl, rfl⟩)
  | appendTurn a =>
      obtain ⟨q, -, rfl⟩ := entryOf_append hw
      exact Or.inr (Or.inl ⟨_, rfl, rfl, rfl⟩)

/-- **Every call extends the DAG**, whatever its fault. -/
theorem Dag.step {es : List TurnEvent} {m m' : TurnSystem} {e : TurnEvent}
    (h : Dag (journalOf es)) (hs : TurnStep m e m') (hlog : LogKept (journalOf es) m)
    (hturns : ∀ s, m.proc = some s → ∀ k r, s.turns.lookup k = some r →
      r ∈ (journalOf es).turns) : Dag (journalOf (es ++ [e])) := by
  rcases hs.cases with ⟨rfl, -⟩ | ⟨c, now, err, s, rfl, -⟩ |
    ⟨c, now, w, stop, s, hw, -, hproc, hentry, -⟩
  · rwa [journalOf_concat_of_no_write rfl]
  · rwa [journalOf_concat_of_no_write rfl]
  · rw [journalOf_concat_of_write hw]
    have hturns := hturns s hproc
    have hfresh := hlog.fresh s hproc
    constructor
    · intro r hr
      rcases List.mem_append.mp hr with hr | hr
      · rcases h.turn r hr with h0 | ⟨p, hp, hpar⟩
        · exact Or.inl h0
        · exact Or.inr ⟨p, List.mem_append_left _ hp, hpar⟩
      · obtain ⟨t, ht, rfl⟩ := Entry.mem_saved_turns hr
        rcases entryOf_turn hentry ht hturns hfresh with h0 | ⟨p, hp, hpar⟩
        · exact Or.inl h0
        · exact Or.inr ⟨p, List.mem_append_left _ hp, hpar⟩
    · intro head hhead
      rcases List.mem_append.mp hhead with hhead | hhead
      · rcases h.head head hhead with h0 | ⟨r, hr, hname⟩
        · exact Or.inl h0
        · exact Or.inr ⟨r, List.mem_append_left _ hr, hname⟩
      · obtain rfl := Entry.mem_saved_heads hhead
        rcases entryOf_head hentry hturns with h0 | ⟨t, ht, hname⟩ | ⟨r, hr, hname⟩
        · exact Or.inl h0
        · -- The head record comes last, so the turn it names is in the log.
          refine Or.inr ⟨t.1, List.mem_append_right _ ?_, hname⟩
          simp only [Entry.saved, List.mem_ite_nil_right] at hhead
          simp only [Entry.saved, ht]
          rw [if_pos (whole_of_rank_lt (by decide) hhead.1)]
          exact List.mem_singleton_self _
        · exact Or.inr ⟨r, List.mem_append_left _ hr, hname⟩

/-! ### The DAG of a store -/

/-- The turns of a store as a forest; 0 is the parent of the first turns. -/
def TurnStore.forest (s : TurnStore) : Forest UInt64 TurnRecord :=
  ⟨fun k => s.turns.lookup k, TurnRecord.parentTurnId, 0⟩

/-- The links of the DAG: turns are stored under their ids, parents are stored and have
smaller ids, heads name stored turns with their depth, and all ids are below the counter.
The id 0 means "no turn" and is never used. Depths are added as 32-bit numbers. -/
structure TurnStore.Linked (s : TurnStore) : Prop where
  zero : s.turns.lookup 0 = none
  turnId : ∀ k r, s.turns.lookup k = some r → r.turnId = k
  parent : ∀ k r, s.turns.lookup k = some r → (r.parentTurnId = 0 ∧ r.depth = 0) ∨
    ∃ p, s.turns.lookup r.parentTurnId = some p ∧ r.parentTurnId < k ∧
      r.depth = p.depth + 1
  head : ∀ c h, s.heads.lookup c = some h → (h.headTurnId = 0 ∧ h.headDepth = 0) ∨
    ∃ r, s.turns.lookup h.headTurnId = some r ∧ r.depth = h.headDepth
  below : ∀ k ∈ s.turns, k < s.nextTurnId

/-- The turn DAG: linked, with depths that are one more than those of the parents. -/
structure TurnStore.WellFormed (s : TurnStore) : Prop extends s.Linked where
  depth : ∀ k r p, s.turns.lookup k = some r → s.turns.lookup r.parentTurnId = some p →
    r.depth.toNat = p.depth.toNat + 1

/-- The links between turns, without the heads. -/
structure TurnStore.Parented (s : TurnStore) : Prop where
  zero : s.turns.lookup 0 = none
  turnId : ∀ k r, s.turns.lookup k = some r → r.turnId = k
  parent : ∀ k r, s.turns.lookup k = some r → (r.parentTurnId = 0 ∧ r.depth = 0) ∨
    ∃ p, s.turns.lookup r.parentTurnId = some p ∧ r.parentTurnId < k ∧
      r.depth = p.depth + 1
  below : ∀ k ∈ s.turns, k < s.nextTurnId

theorem TurnStore.Linked.parented {s : TurnStore} (h : s.Linked) : s.Parented :=
  ⟨h.zero, h.turnId, h.parent, h.below⟩

/-- Every stored turn has a history: parents have smaller ids. -/
theorem TurnStore.Parented.closed {s : TurnStore} (h : s.Parented) :
    Closed s.forest UInt64.toNat := by
  intro k r hr
  rcases h.parent k r hr with ⟨h0, -⟩ | ⟨p, hp, hlt, -⟩
  · exact Or.inl h0
  · exact Or.inr ⟨Option.isSome_iff_exists.mpr ⟨p, hp⟩, UInt64.lt_iff_toNat_lt.mp hlt⟩

/-- A store whose turns are those of a DAG has its parents. -/
theorem Dag.parented {j : Journal} {m : TurnSystem} {s : TurnStore} (h : Dag j)
    (hlog : LogKept j m) (hpos : ∀ r ∈ j.turns, r.turnId ≠ 0)
    (hfresh : ∀ r ∈ j.turns, r.turnId < s.nextTurnId)
    (hturns : s.turns = turnMap j.turns) : s.Parented where
  zero := by
    rw [hturns, Finmap.lookup_eq_none, mem_turnMap]
    rintro ⟨r, hr, h0⟩
    exact hpos r hr h0
  turnId k r hr := (turnMap_lookup_inv (hturns ▸ hr)).2
  parent k r hr := by
    rw [hturns] at hr ⊢
    obtain ⟨hmem, rfl⟩ := turnMap_lookup_inv hr
    rcases h.turn r hmem with h0 | ⟨p, hp, hpar, hlt, hdepth⟩
    · exact Or.inl h0
    · exact Or.inr ⟨p, hpar ▸ turnMap_lookup hlog.increasing hp, hpar ▸ hlt, hdepth⟩
  below k hk := by
    rw [hturns] at hk
    obtain ⟨r, hr, rfl⟩ := mem_turnMap.mp hk
    exact hfresh r hr

/-- A store in step with a DAG is linked. -/
theorem Dag.linked {j : Journal} {m : TurnSystem} {s : TurnStore} (h : Dag j)
    (hlog : LogKept j m) (hpos : ∀ r ∈ j.turns, r.turnId ≠ 0)
    (hfresh : ∀ r ∈ j.turns, r.turnId < s.nextTurnId)
    (hturns : s.turns = turnMap j.turns) (hheads : s.heads = headMap j.heads) :
    s.Linked := by
  obtain ⟨hzero, hturnId, hparent, hbelow⟩ := h.parented hlog hpos hfresh hturns
  refine ⟨hzero, hturnId, hparent, fun c hd hhd => ?_, hbelow⟩
  rw [hheads] at hhd
  rw [hturns]
  rcases h.head hd (headMap_lookup_inv hhd).1 with h0 | ⟨r, hr, hname, hdepth⟩
  · exact Or.inl h0
  · exact Or.inr ⟨r, hname ▸ turnMap_lookup hlog.increasing hr, hdepth⟩

/-! ### Walks -/

/-- `get_last` and `get_before` walk along the history. -/
theorem TurnStore.walkBack_of_chain {s : TurnStore} {k : UInt64} {vs : List TurnRecord}
    (h : Chain s.forest k vs) (limit : ℕ) : s.walkBack limit k = .ok (vs.take limit) := by
  induction h generalizing limit with
  | root => cases limit <;> simp [TurnStore.walkBack, TurnStore.forest]
  | node hne hget _ ih =>
      cases limit with
      | zero => simp [TurnStore.walkBack]
      | succ limit =>
          simp only [TurnStore.forest] at hne hget ih
          simp [TurnStore.walkBack, hne, TurnStore.getTurn, hget, ih, bind, Except.bind, pure,
            Except.pure]

/-- `get_first_turn` runs along the history to the first turn of depth 0. -/
theorem TurnStore.firstTurnLoop_of_chain {s : TurnStore} {k : UInt64} {vs : List TurnRecord}
    (h : Chain s.forest k vs) {fuel : ℕ} (hfuel : vs.length < fuel) :
    s.firstTurnLoop fuel k =
      match vs.find? fun r => r.depth = 0 with
      | none => some (.error (.notFound "first turn"))
      | some r => some (.ok r) := by
  induction h generalizing fuel with
  | root =>
      obtain ⟨fuel, rfl⟩ : ∃ n, fuel = n + 1 := ⟨fuel - 1, by omega⟩
      simp [TurnStore.firstTurnLoop, TurnStore.forest]
  | @node k v vs hne hget _ ih =>
      obtain ⟨fuel, rfl⟩ : ∃ n, fuel = n + 1 := ⟨fuel - 1, by omega⟩
      simp only [TurnStore.forest] at hne hget ih
      by_cases hd : v.depth = 0
      · simp [TurnStore.firstTurnLoop, hne, hget, hd]
      · simp only [List.length_cons] at hfuel
        simp [TurnStore.firstTurnLoop, hne, hget, hd, ih (show vs.length < fuel by omega)]

namespace TurnStore.Linked

variable {s : TurnStore}

theorem closed (h : s.Linked) : Closed s.forest UInt64.toNat := h.parented.closed

/-- Every context has a history. -/
theorem chain_of_head (h : s.Linked) {c : UInt64} {head : ContextHead}
    (hhead : s.heads.lookup c = some head) : ∃ vs, Chain s.forest head.headTurnId vs := by
  refine exists_chain h.closed ?_
  rcases h.head c head hhead with ⟨h0, -⟩ | ⟨r, hr, -⟩
  · exact Or.inl h0
  · exact Or.inr (Option.isSome_iff_exists.mpr ⟨r, hr⟩)

/-- Every stored turn has a history above it. -/
theorem chain_of_turn (h : s.Linked) {k : UInt64} {r : TurnRecord}
    (hr : s.turns.lookup k = some r) : ∃ vs, Chain s.forest r.parentTurnId vs := by
  refine exists_chain h.closed ?_
  rcases h.parent k r hr with ⟨h0, -⟩ | ⟨p, hp, -⟩
  · exact Or.inl h0
  · exact Or.inr (Option.isSome_iff_exists.mpr ⟨p, hp⟩)

/-- The turns of a history are stored under their ids. -/
theorem stored_of_chain (h : s.Linked) {k : UInt64} {vs : List TurnRecord}
    (hvs : Chain s.forest k vs) : ∀ r ∈ vs, s.turns.lookup r.turnId = some r := by
  intro r hr
  obtain ⟨k', -, hk'⟩ := hvs.stored hr
  change s.turns.lookup k' = some r at hk'
  rwa [h.turnId k' r hk']

/-- The ids of a history decrease. -/
theorem chain_turnIds (h : s.Linked) {k : UInt64} {vs : List TurnRecord}
    (hvs : Chain s.forest k vs) :
    (vs.map TurnRecord.turnId).Pairwise (· > ·) ∧ ∀ r ∈ vs, r.turnId ≤ k := by
  induction hvs with
  | root => exact ⟨List.Pairwise.nil, by simp⟩
  | @node k v vs hne hget hrest ih =>
      obtain ⟨hpairwise, hle⟩ := ih
      have hid : v.turnId = k := h.turnId k v hget
      have hlt : ∀ r ∈ vs, r.turnId < k := by
        intro r hr
        rcases h.parent k v hget with ⟨h0, -⟩ | ⟨p, -, hlt, -⟩
        · rw [show s.forest.parent v = 0 from h0] at hrest
          obtain rfl := hrest.unique Chain.root
          cases hr
        · exact lt_of_le_of_lt (hle r hr) hlt
      refine ⟨List.pairwise_cons.mpr ⟨fun x hx => ?_, hpairwise⟩, fun r hr => ?_⟩
      · obtain ⟨r, hr, rfl⟩ := List.mem_map.mp hx
        exact hid ▸ hlt r hr
      · rcases List.mem_cons.mp hr with rfl | hr
        · exact le_of_eq hid
        · exact le_of_lt (hlt r hr)

/-- The depths of a history go down by one to 0. -/
theorem chain_depths (h : s.Linked) {k : UInt64} {vs : List TurnRecord}
    (hvs : Chain s.forest k vs) :
    vs.IsChain (fun r p => r.depth = p.depth + 1) ∧ ∀ r ∈ vs.getLast?, r.depth = 0 := by
  induction hvs with
  | root => exact ⟨List.IsChain.nil, by simp⟩
  | @node k v vs hne hget hrest ih =>
      obtain ⟨hchain, hlast⟩ := ih
      rcases h.parent k v hget with ⟨h0, hdepth⟩ | ⟨p, hp, -, hdepth⟩
      · rw [show s.forest.parent v = 0 from h0] at hrest
        obtain rfl := hrest.unique Chain.root
        exact ⟨List.isChain_singleton _, by simpa using hdepth⟩
      · cases vs with
        | nil =>
            have h0 : v.parentTurnId = 0 := hrest.eq_root
            rw [h0, h.zero] at hp
            cases hp
        | cons q vs =>
            obtain ⟨-, hq, -⟩ := hrest.cons_inv
            obtain rfl : p = q := Option.some.inj (hp.symm.trans hq)
            exact ⟨List.isChain_cons_cons.mpr ⟨hdepth, hchain⟩, hlast⟩

/-- `get_last` returns the end of the history, oldest turn first. -/
theorem getLast (h : s.Linked) {c : UInt64} {head : ContextHead}
    (hhead : s.heads.lookup c = some head) :
    ∃ vs, Chain s.forest head.headTurnId vs ∧
      ∀ limit, s.getLast c limit = .ok (vs.take limit.toNat).reverse := by
  obtain ⟨vs, hvs⟩ := h.chain_of_head hhead
  refine ⟨vs, hvs, fun limit => ?_⟩
  simp [TurnStore.getLast, TurnStore.getHead, hhead, walkBack_of_chain hvs, bind, Except.bind,
    pure, Except.pure]

/-- `get_before` returns a page, unless the turn it is to start before is not stored. -/
theorem getBefore (h : s.Linked) {c : UInt64} {head : ContextHead}
    (hhead : s.heads.lookup c = some head) (before : UInt64) (limit : UInt32) :
    (∃ page, s.getBefore c before limit = .ok page) ∨
      (before ∉ s.turns ∧ s.getBefore c before limit = .error (.notFound "before turn")) := by
  by_cases hlast : before = 0 ∨ head.headTurnId = 0
  · obtain ⟨vs, -, hvs⟩ := h.getLast hhead
    exact Or.inl ⟨(vs.take limit.toNat).reverse, by
      simp [TurnStore.getBefore, TurnStore.getHead, hhead, hlast, hvs, bind, Except.bind]⟩
  cases hb : s.turns.lookup before with
  | none =>
      refine Or.inr ⟨Finmap.lookup_eq_none.mp hb, ?_⟩
      simp [TurnStore.getBefore, TurnStore.getHead, hhead, hlast, hb, bind, Except.bind]
  | some r =>
      obtain ⟨vs, hvs⟩ := h.chain_of_turn hb
      exact Or.inl ⟨(vs.take limit.toNat).reverse, by
        simp [TurnStore.getBefore, TurnStore.getHead, hhead, hlast, hb, bind, Except.bind,
          walkBack_of_chain hvs, pure, Except.pure]⟩

end TurnStore.Linked

/-! ### Depths -/

/-- No turn of the store has the largest 32-bit depth. -/
def TurnStore.DepthsFit (s : TurnStore) : Prop :=
  ∀ k ∈ s.turns.keys, ∀ r ∈ s.turns.lookup k, r.depth.toNat < 2 ^ 32 - 1

instance (s : TurnStore) : Decidable s.DepthsFit :=
  -- Not by going through all 64-bit numbers.
  Finset.decidableDforallFinset

/-- Depths that fit have not been wrapped. -/
theorem TurnStore.Linked.wellFormed {s : TurnStore} (h : s.Linked) (hfit : s.DepthsFit) :
    s.WellFormed := by
  refine ⟨h, fun k r p hr hp => ?_⟩
  have hp64 := hfit r.parentTurnId (Finmap.mem_keys.mpr (Finmap.mem_of_lookup_eq_some hp)) p hp
  rcases h.parent k r hr with ⟨h0, -⟩ | ⟨p', hp', -, hdepth⟩
  · rw [h0, h.zero] at hp
    exact absurd hp (by simp)
  · obtain rfl := Option.some.inj (hp'.symm.trans hp)
    rw [hdepth, UInt32.toNat_add, UInt32.toNat_one]
    exact Nat.mod_eq_of_lt (by omega)

namespace TurnStore.WellFormed

variable {s : TurnStore}

/-- The depth of a turn is the number of turns above it. -/
theorem depth_eq_length (h : s.WellFormed) {k : UInt64} {r : TurnRecord}
    {vs : List TurnRecord} (hchain : Chain s.forest k (r :: vs)) :
    r.depth.toNat = vs.length := by
  induction vs generalizing k r with
  | nil =>
      obtain ⟨-, hget, hrest⟩ := hchain.cons_inv
      have h0 : r.parentTurnId = 0 := hrest.eq_root
      rcases h.parent k r hget with ⟨-, hd⟩ | ⟨p, hp, -⟩
      · rw [hd]
        rfl
      · rw [h0, h.zero] at hp
        exact absurd hp (by simp)
  | cons p vs ih =>
      obtain ⟨-, hget, hrest⟩ := hchain.cons_inv
      obtain ⟨-, hp, -⟩ := hrest.cons_inv
      rw [h.depth k r p hget hp, ih hrest, List.length_cons]

/-- The first turn of depth 0 on a history is its oldest turn. -/
theorem find_depth_zero (h : s.WellFormed) {k : UInt64} {vs : List TurnRecord}
    (hchain : Chain s.forest k vs) : (vs.find? fun r => r.depth = 0) = vs.getLast? := by
  induction hchain with
  | root => rfl
  | @node k r vs hne hget hrest ih =>
      have hdepth := h.depth_eq_length (Chain.node hne hget hrest)
      cases vs with
      | nil =>
          have h0 : r.depth = 0 := UInt32.toNat_inj.mp (by simpa using hdepth)
          simp [h0]
      | cons p vs =>
          have hne0 : r.depth ≠ 0 := by
            rintro h0
            simp [h0] at hdepth
          simpa [hne0, List.getLast?_cons_cons] using ih

/-- `get_first_turn` ends, and returns the oldest turn of the history. -/
theorem getFirstTurn (h : s.WellFormed) {c : UInt64} {head : ContextHead}
    (hhead : s.heads.lookup c = some head) :
    ∃ vs, Chain s.forest head.headTurnId vs ∧ ∀ fuel, vs.length < fuel →
      s.getFirstTurn fuel c =
        match vs.getLast? with
        | none => some (.error (.notFound "first turn"))
        | some r => some (.ok r) := by
  obtain ⟨vs, hvs⟩ := h.chain_of_head hhead
  refine ⟨vs, hvs, fun fuel hfuel => ?_⟩
  rw [← h.find_depth_zero hvs, ← firstTurnLoop_of_chain hvs hfuel]
  simp [TurnStore.getFirstTurn, TurnStore.getHead, hhead]

end TurnStore.WellFormed

/-! ### Runs -/

/-- The ids of the turns that the calls of a run have returned, in order. -/
def returnedTurnIds (es : List TurnEvent) : List UInt64 :=
  (ackedEntries es).filterMap fun w => w.turn.map fun t => t.1.turnId

/-- The journal of a quiet run is a DAG. -/
theorem dag_of_quiet {es : List TurnEvent} {m : TurnSystem}
    (h : Run (Guarded (fun _ e => e.Quiet) TurnStep) TurnSystem.initial es m) :
    Dag (journalOf es) := by
  induction h with
  | start => exact Dag.initial
  | @next es m m' e hrun hs ih =>
      obtain ⟨hmir, -⟩ := mirror_of_quiet hrun
      refine ih.step hs.2 hmir.log fun s hproc k r hr => ?_
      rw [(hmir.live s hproc).1] at hr
      exact (turnMap_lookup_inv hr).1

/-- A store in step with its journal is linked. -/
theorem Mirror.linked {j : Journal} {m : TurnSystem} {s : TurnStore} (h : Mirror j m)
    (hdag : Dag j) (hs : m.proc = some s) : s.Linked := by
  obtain ⟨hturns, hheads, -⟩ := h.live s hs
  refine hdag.linked h.log (fun r hr h0 => ?_) (h.log.fresh s hs) hturns hheads
  simpa [h0] using (h.ids.mem hr).1

/-- **The turn DAG.** In every state of every run of calls and reopenings whose depths
stay below `2 ^ 32 - 1`, the running store is well formed, the ids its appends have
returned increase strictly, across reopenings too, and every read of a context's history
ends without meeting a missing turn. -/
theorem dag_wellFormed {es : List TurnEvent} {m : TurnSystem} {s : TurnStore}
    (h : Run (Guarded (fun _ e => e.Quiet) TurnStep) TurnSystem.initial es m)
    (hs : m.proc = some s) (hfit : s.DepthsFit) :
    s.WellFormed ∧ (returnedTurnIds es).Pairwise (· < ·) ∧
      ∀ c head, s.heads.lookup c = some head →
        (∀ limit, ∃ page, s.getLast c limit = .ok page) ∧
        (∀ before limit, (∃ page, s.getBefore c before limit = .ok page) ∨
          (before ∉ s.turns ∧
            s.getBefore c before limit = .error (.notFound "before turn"))) ∧
        ∃ n, ∀ fuel, n < fuel →
          (head.headTurnId = 0 ∧
            s.getFirstTurn fuel c = some (.error (.notFound "first turn"))) ∨
          ∃ r, s.getFirstTurn fuel c = some (.ok r) ∧ r.depth = 0 := by
  obtain ⟨hmir, -⟩ := mirror_of_quiet h
  have hwf := (hmir.linked (dag_of_quiet h) hs).wellFormed hfit
  refine ⟨hwf, ?_, fun c head hhead => ⟨fun limit => ?_, hwf.getBefore hhead, ?_⟩⟩
  · have hids : returnedTurnIds es = (journalOf es).turns.map TurnRecord.turnId := by
      rw [journalOf_turns_of_quiet (forall_mem_of_guarded h), List.map_filterMap]
      simp [returnedTurnIds, Function.comp_def]
    exact hids ▸ hmir.log.increasing
  · obtain ⟨vs, -, hvs⟩ := hwf.getLast hhead
    exact ⟨_, hvs limit⟩
  · obtain ⟨vs, hchain, hvs⟩ := hwf.getFirstTurn hhead
    refine ⟨vs.length, fun fuel hfuel => ?_⟩
    rw [hvs fuel hfuel]
    cases hlast : vs.getLast? with
    | none =>
        rw [List.getLast?_eq_none_iff] at hlast
        subst hlast
        exact Or.inl ⟨hchain.eq_root, rfl⟩
    | some r =>
        rw [← hwf.find_depth_zero hchain] at hlast
        exact Or.inr ⟨r, rfl, by simpa using List.find?_some hlast⟩

/-- An append, a fork from it, an append with an explicit parent, a reopening and one more
append to the fork. -/
def forkInputs : List TurnInput :=
  [.opening, .call (.createContext 0) 0, .call (plainAppend 1 0) 1,
    .call (plainAppend 1 0) 2, .call (.forkContext 1) 3, .call (plainAppend 2 2) 4, .opening,
    .call (plainAppend 2 0) 5]

set_option maxRecDepth 2000 in
/-- `dag_wellFormed` on a fork. -/
theorem dag_wellFormed_forkInputs :
    ∃ es m s, execAll (fun _ e => e.Quiet) TurnSystem.exec TurnSystem.initial forkInputs =
        some (es, m) ∧ m.proc = some s ∧ s.WellFormed ∧ returnedTurnIds es = [1, 2, 3, 4] ∧
      (returnedTurnIds es).Pairwise (· < ·) := by
  obtain ⟨es, m, h, hrun, hproc, hfit, hids⟩ := TurnSystem.exists_run (fun _ e => e.Quiet)
    forkInputs
    (fun es m => m.proc.isSome = true ∧ (∀ s ∈ m.proc, s.DepthsFit) ∧
      returnedTurnIds es = [1, 2, 3, 4])
    (by decide +kernel)
  obtain ⟨s, hs⟩ := Option.isSome_iff_exists.mp hproc
  obtain ⟨hwf, hinc, -⟩ := dag_wellFormed hrun hs (hfit s hs)
  exact ⟨es, m, s, h, hs, hwf, hids, hinc⟩

end Cxdb
