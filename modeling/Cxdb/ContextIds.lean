import Cxdb.TurnDag

/-!
# Context Ids

`create_context` numbers contexts from a counter, and `append_turn` with an explicit
parent writes a head for whatever context id it is given: that branch never looks the
context up. A head under an id that was not handed out yet is overwritten when the counter
gets there, and a reopening moves the counter behind it.

## Main results

* `Numbered.step`: the ids handed out are `1, 2, 3, …`.
* `nextId_headMap`: where the counter stands after a reopening.
* `context_ids_unique`: ids are unique, and appends to other contexts fail, as long as
  explicit-parent appends name existing contexts.
* `append_claims_next_context_id`: one append to context 2 and `create_context` returns 2.
-/

open ByteFormat FaultyDisk RecordLog LastWrite Transition

namespace Cxdb

/-- The id of the context an event created. -/
def TurnEvent.created : TurnEvent → Option UInt64
  | .acked (.createContext _) _ w | .acked (.forkContext _) _ w => some w.head.contextId
  | _ => none

/-- The context an event appended to. -/
def TurnEvent.appendedTo : TurnEvent → Option UInt64
  | .acked (.appendTurn a) _ _ => some a.contextId
  | _ => none

/-- The ids that `create_context` and `fork_context` have returned, in order. -/
def createdIds (es : List TurnEvent) : List UInt64 := es.filterMap TurnEvent.created

/-- The context ids of the appends that returned. -/
def appendedIds (es : List TurnEvent) : List UInt64 := es.filterMap TurnEvent.appendedTo

theorem createdIds_concat (es : List TurnEvent) (e : TurnEvent) :
    createdIds (es ++ [e]) = createdIds es ++ e.created.toList := by
  cases h : e.created <;> simp [createdIds, h]

theorem appendedIds_concat (es : List TurnEvent) (e : TurnEvent) :
    appendedIds (es ++ [e]) = appendedIds es ++ e.appendedTo.toList := by
  cases h : e.appendedTo <;> simp [appendedIds, h]

theorem no_ids_of_no_write {e : TurnEvent} (h : e.write = none) :
    e.created = none ∧ e.appendedTo = none := by
  cases e with
  | opened | rejected => exact ⟨rfl, rfl⟩
  | acked | failed | crashed => simp [TurnEvent.write] at h

/-- An acknowledged call either creates the context the counter stood at, or appends a
turn to the context it names. -/
theorem acked_ids {s : TurnStore} {c : TurnCall} {now : UInt64} {w : Entry}
    (hw : s.entryOf now c = .ok w) :
    (w.turn = none ∧ w.head.contextId = s.nextContextId ∧
      (TurnEvent.acked c now w).created = some s.nextContextId ∧
      (TurnEvent.acked c now w).appendedTo = none) ∨
    (∃ a, c = .appendTurn a ∧ w.turn ≠ none ∧ w.head.contextId = a.contextId ∧
      (TurnEvent.acked c now w).created = none ∧
      (TurnEvent.acked c now w).appendedTo = some a.contextId) := by
  cases c with
  | createContext base | forkContext base =>
      obtain ⟨b, -, rfl⟩ := entryOf_create hw
      exact Or.inl ⟨rfl, rfl, rfl, rfl⟩
  | appendTurn a =>
      obtain ⟨p, -, rfl⟩ := entryOf_append hw
      exact Or.inr ⟨a, rfl, by simp, rfl, rfl, rfl⟩

theorem after_nextContextId (s : TurnStore) (w : Entry) (offset : ℕ) :
    (s.after w offset none).nextContextId =
      if w.turn = none then s.nextContextId + 1 else s.nextContextId := by
  obtain ⟨_ | t, head⟩ := w <;> rfl

/-! ### Numbering -/

/-- The contexts handed out are numbered `1, 2, 3, …`, the heads belong to them and to the
contexts of appends, and there is no append before the first context. -/
structure Numbered (es : List TurnEvent) (m : TurnSystem) : Prop where
  created : (createdIds es).map UInt64.toNat = List.range' 1 (createdIds es).length
  heads : ∀ c, (∃ h ∈ (journalOf es).heads, h.contextId = c) ↔
    c ∈ createdIds es ∨ c ∈ appendedIds es
  count : (createdIds es).length ≤ (journalOf es).heads.length
  size : 36 * (journalOf es).heads.length < 2 ^ 63
  first : (journalOf es).turns ≠ [] ∨ appendedIds es ≠ [] → createdIds es ≠ []
  next : ∀ s, m.proc = some s → s.nextContextId.toNat = (createdIds es).length + 1

theorem Numbered.initial : Numbered [] TurnSystem.initial where
  created := rfl
  heads := by simp [journalOf, createdIds, appendedIds]
  count := by simp [journalOf, createdIds]
  size := by simp [journalOf]
  first := by simp [journalOf, appendedIds]
  next := by simp [TurnSystem.initial]

theorem Numbered.mem_createdIds {es : List TurnEvent} {m : TurnSystem} (h : Numbered es m)
    {c : UInt64} : c ∈ createdIds es ↔ 0 < c.toNat ∧ c.toNat ≤ (createdIds es).length := by
  have hmem : c.toNat ∈ (createdIds es).map UInt64.toNat ↔ c ∈ createdIds es :=
    List.mem_map_of_injective fun _ _ => UInt64.toNat_inj.mp
  rw [← hmem, h.created, List.mem_range'_1]
  omega

theorem Numbered.nodup {es : List TurnEvent} {m : TurnSystem} (h : Numbered es m) :
    (createdIds es).Nodup :=
  List.Nodup.of_map _ (h.created ▸ List.nodup_range')

/-- **The counter after a reopening** is one more than the number of contexts exactly when
no append named a context beyond them. -/
theorem Numbered.nextId_headMap {es : List TurnEvent} {m : TurnSystem} (h : Numbered es m) :
    (nextId (headMap (journalOf es).heads) 1).toNat = (createdIds es).length + 1 ↔
      ∀ c ∈ appendedIds es, c.toNat ≤ (createdIds es).length := by
  have hkeys : ∀ c, c ∈ headMap (journalOf es).heads ↔
      c ∈ createdIds es ∨ c ∈ appendedIds es := fun c => mem_headMap.trans (h.heads c)
  have hroom : (createdIds es).length + 1 < 2 ^ 64 := by
    have := h.count
    have := h.size
    omega
  rcases List.eq_nil_or_concat' (createdIds es) with hnil | ⟨init, last, hlast⟩
  · -- No context, hence no append: the map is empty.
    have happ : appendedIds es = [] := by
      by_contra hne
      exact h.first (Or.inr hne) hnil
    have hempty : (headMap (journalOf es).heads).keys = ∅ := by
      ext c
      rw [Finmap.mem_keys, hkeys, hnil, happ]
      simp
    simp [nextId, hempty, hnil, happ]
  · have hmem : last ∈ createdIds es := by simp [hlast]
    obtain ⟨x, hx⟩ : ∃ x : UInt64, (headMap (journalOf es).heads).keys.max = x :=
      Finset.max_of_mem (Finmap.mem_keys.mpr ((hkeys last).mpr (Or.inl hmem)))
    have hxmem := (hkeys x).mp (Finmap.mem_keys.mp (Finset.mem_of_max hx))
    have hle : ∀ c, c ∈ createdIds es ∨ c ∈ appendedIds es → c.toNat ≤ x.toNat := by
      intro c hc
      exact UInt64.le_iff_toNat_le.mp
        (Finset.le_max_of_eq (Finmap.mem_keys.mpr ((hkeys c).mpr hc)) hx)
    have hk : (createdIds es).length ≤ x.toNat := by
      have hcard : 0 < (createdIds es).length := List.length_pos_of_mem hmem
      have hlen : UInt64.ofNat (createdIds es).length ∈ createdIds es := by
        rw [h.mem_createdIds, UInt64.toNat_ofNat', Nat.mod_eq_of_lt (by omega)]
        exact ⟨hcard, le_rfl⟩
      have := hle _ (Or.inl hlen)
      rwa [UInt64.toNat_ofNat', Nat.mod_eq_of_lt (by omega)] at this
    have hnext : nextId (headMap (journalOf es).heads) 1 = x + 1 := by
      unfold nextId
      rw [hx]
    rw [hnext]
    constructor
    · intro heq c hc
      have hx64 := x.toNat_lt
      rw [UInt64.toNat_add, UInt64.toNat_one] at heq
      have := hle c (Or.inr hc)
      omega
    · intro happ
      have hxle : x.toNat ≤ (createdIds es).length := by
        rcases hxmem with hc | hc
        · exact (h.mem_createdIds.mp hc).2
        · exact happ x hc
      rw [toNat_add_one (by omega)]
      omega

/-- An event that writes nothing changes no numbering but the counter. -/
theorem Numbered.of_no_write {es : List TurnEvent} {m m' : TurnSystem} {e : TurnEvent}
    (h : Numbered es m) (hw : e.write = none)
    (hnext : ∀ s, m'.proc = some s → s.nextContextId.toNat = (createdIds es).length + 1) :
    Numbered (es ++ [e]) m' := by
  obtain ⟨hc, ha⟩ := no_ids_of_no_write hw
  have hcreated : createdIds (es ++ [e]) = createdIds es := by
    rw [createdIds_concat, hc, Option.toList_none, List.append_nil]
  have happended : appendedIds (es ++ [e]) = appendedIds es := by
    rw [appendedIds_concat, ha, Option.toList_none, List.append_nil]
  have hjournal : journalOf (es ++ [e]) = journalOf es := journalOf_concat_of_no_write hw
  constructor <;> simp only [hcreated, happended, hjournal]
  · exact h.created
  · exact h.heads
  · exact h.count
  · exact h.size
  · exact h.first
  · exact hnext

/-- A turn is appended only after a context has been created. -/
theorem Numbered.created_of_append {es : List TurnEvent} {m : TurnSystem} {s : TurnStore}
    {a : AppendArgs} {now : UInt64} {w : Entry} (h : Numbered es m)
    (hturns : s.turns = turnMap (journalOf es).turns)
    (hheads : s.heads = headMap (journalOf es).heads)
    (hw : s.entryOf now (.appendTurn a) = .ok w) : createdIds es ≠ [] := by
  obtain ⟨q, hq, -⟩ := entryOf_append hw
  rcases parentOf_ok hq with ⟨-, r, hr, -⟩ | ⟨-, head, hhead, -⟩
  · rw [hturns] at hr
    exact h.first (Or.inl (List.ne_nil_of_mem (turnMap_lookup_inv hr).1))
  · rw [hheads] at hhead
    obtain ⟨hmem, -⟩ := headMap_lookup_inv hhead
    rcases (h.heads head.contextId).mp ⟨head, hmem, rfl⟩ with hc | hc
    · exact List.ne_nil_of_mem hc
    · exact h.first (Or.inr (List.ne_nil_of_mem hc))

/-- **Numbering survives every quiet step**, a reopening provided that no append named a
context beyond the counter. -/
theorem Numbered.step {es : List TurnEvent} {m m' : TurnSystem} {e : TurnEvent}
    (h : Numbered es m) (hs : TurnStep m e m') (hq : e.Quiet) (hmir : Mirror (journalOf es) m)
    (hmir' : Mirror (journalOf (es ++ [e])) m')
    (hopen : e = .opened → ∀ c ∈ appendedIds es, c.toNat ≤ (createdIds es).length) :
    Numbered (es ++ [e]) m' := by
  rcases hs.cases with ⟨rfl, s, d', ho, rfl⟩ | ⟨c, now, err, s, rfl, -, -, rfl⟩ |
    ⟨c, now, w, stop, s, hw, hcall, hproc, hentry, hdisk, hfit, hproc'⟩
  · refine h.of_no_write rfl ?_
    rintro s' hs'
    obtain rfl := Option.some.inj hs'
    rw [(hmir.heads.opened ho).2]
    exact h.nextId_headMap.mpr (hopen rfl)
  · exact h.of_no_write rfl h.next
  · obtain ⟨rfl, c', now', rfl⟩ := hq.write hw
    obtain ⟨rfl, rfl⟩ := Prod.mk.inj (Option.some.inj hcall)
    obtain ⟨hturns, hheads, -⟩ := hmir.live s hproc
    have hj : journalOf (es ++ [.acked c' now' w]) = journalOf es ++ w.saved none :=
      journalOf_concat_of_write hw
    have hjheads : (journalOf (es ++ [.acked c' now' w])).heads =
        (journalOf es).heads ++ [w.head] := by
      rw [hj, Entry.saved_none]
      rfl
    have hsize : 36 * (journalOf (es ++ [.acked c' now' w])).heads.length < 2 ^ 63 := by
      obtain ⟨tail, hlay⟩ := hmir'.heads.layout
      have := length_headsTbl hlay
      have := hfit .headsTbl
      omega
    have hmem : ∀ c, (∃ hd ∈ (journalOf (es ++ [.acked c' now' w])).heads, hd.contextId = c) ↔
        (c ∈ createdIds es ∨ c ∈ appendedIds es) ∨ c = w.head.contextId := by
      intro c
      rw [← h.heads c, hjheads]
      constructor
      · rintro ⟨hd, hhd, rfl⟩
        rcases List.mem_append.mp hhd with hhd | hhd
        · exact Or.inl ⟨hd, hhd, rfl⟩
        · exact Or.inr (by rw [List.mem_singleton.mp hhd])
      · rintro (⟨hd, hhd, rfl⟩ | rfl)
        · exact ⟨hd, List.mem_append_left _ hhd, rfl⟩
        · exact ⟨w.head, by simp, rfl⟩
    have hcount := h.count
    have hlen : (journalOf (es ++ [.acked c' now' w])).heads.length =
        (journalOf es).heads.length + 1 := by simp [hjheads]
    have hnext := h.next s hproc
    have hroom : s.nextContextId.toNat + 1 < 2 ^ 64 := by omega
    rcases acked_ids hentry with ⟨hnone, hctx, hcr, happ⟩ | ⟨a, rfl, hsome, hctx, hcr, happ⟩
    · have hcreated : createdIds (es ++ [.acked c' now' w]) =
          createdIds es ++ [s.nextContextId] := by
        rw [createdIds_concat, hcr, Option.toList_some]
      have happended : appendedIds (es ++ [.acked c' now' w]) = appendedIds es := by
        rw [appendedIds_concat, happ, Option.toList_none, List.append_nil]
      constructor <;>
        try simp only [hcreated, happended, List.length_append, List.length_singleton]
      · rw [List.map_append, h.created, List.range'_1_concat, List.map_singleton, hnext,
          Nat.add_comm 1]
      · intro c
        rw [hmem c, hctx, List.mem_append, List.mem_singleton]
        tauto
      · omega
      · exact hsize
      · simp
      · intro s' hs'
        rw [hproc'] at hs'
        obtain rfl := Option.some.inj hs'
        rw [after_nextContextId, if_pos hnone, toNat_add_one hroom, hnext]
    · have hcreated : createdIds (es ++ [.acked (.appendTurn a) now' w]) = createdIds es := by
        rw [createdIds_concat, hcr, Option.toList_none, List.append_nil]
      have happended : appendedIds (es ++ [.acked (.appendTurn a) now' w]) =
          appendedIds es ++ [a.contextId] := by
        rw [appendedIds_concat, happ, Option.toList_some]
      constructor <;> try simp only [hcreated, happended]
      · exact h.created
      · intro c
        rw [hmem c, hctx, List.mem_append, List.mem_singleton]
        tauto
      · omega
      · exact hsize
      · exact fun _ => h.created_of_append hturns hheads hentry
      · intro s' hs'
        rw [hproc'] at hs'
        obtain rfl := Option.some.inj hs'
        rw [after_nextContextId, if_neg hsome, hnext]

/-! ### Unique ids -/

/-- If the explicit parent of an append is a stored turn, then its context exists. -/
def TurnStore.Knows (s : TurnStore) (a : AppendArgs) : Prop :=
  a.parentTurnId ≠ 0 → a.parentTurnId ∈ s.turns → a.contextId ∈ s.heads

instance (s : TurnStore) (a : AppendArgs) : Decidable (s.Knows a) :=
  inferInstanceAs (Decidable (_ → _ → _))

/-- The appends of a run name existing contexts. -/
def NamesContext (m : TurnSystem) : TurnEvent → Prop
  | .acked (.appendTurn a) _ _ => ∀ s ∈ m.proc, s.Knows a
  | _ => True

instance (m : TurnSystem) : DecidablePred (NamesContext m)
  | .acked (.appendTurn a) _ _ => inferInstanceAs (Decidable (∀ s ∈ m.proc, s.Knows a))
  | .acked (.createContext _) _ _ | .acked (.forkContext _) _ _ | .opened
  | .rejected _ _ _ | .failed _ _ _ _ | .crashed _ _ _ _ => inferInstanceAs (Decidable True)

/-- The context of an append that returns exists, if it names an existing one. -/
theorem contextId_mem_heads {s : TurnStore} {a : AppendArgs} {now : UInt64} {w : Entry}
    (hw : s.entryOf now (.appendTurn a) = .ok w) (hk : s.Knows a) : a.contextId ∈ s.heads := by
  obtain ⟨q, hq, -⟩ := entryOf_append hw
  rcases parentOf_ok hq with ⟨hp, r, hr, -⟩ | ⟨-, head, hhead, -⟩
  · exact hk hp (Finmap.mem_of_lookup_eq_some hr)
  · exact Finmap.mem_of_lookup_eq_some hhead

/-- In runs whose appends name existing contexts, appends go to created contexts only. -/
theorem numbered_of_namesContext {es : List TurnEvent} {m : TurnSystem}
    (h : Run (Guarded (fun m e => e.Quiet ∧ NamesContext m e) TurnStep) TurnSystem.initial
      es m) :
    Mirror (journalOf es) m ∧ Numbered es m ∧ ∀ c ∈ appendedIds es, c ∈ createdIds es := by
  induction h with
  | start => exact ⟨Mirror.initial, Numbered.initial, by simp [appendedIds]⟩
  | @next es m m' e hrun hs ih =>
      obtain ⟨⟨hq, hnames⟩, hstep⟩ := hs
      obtain ⟨hmir, hnum, hsub⟩ := ih
      have hquiet : Run (Guarded (fun _ e => e.Quiet) TurnStep) TurnSystem.initial
          (es ++ [e]) m' :=
        (hrun.mono fun _ _ _ hs => ⟨hs.1.1, hs.2⟩).next ⟨hq, hstep⟩
      obtain ⟨hmir', -⟩ := mirror_of_quiet hquiet
      refine ⟨hmir', hnum.step hstep hq hmir hmir' fun _ c hc =>
        (hnum.mem_createdIds.mp (hsub c hc)).2, ?_⟩
      intro c hc
      rw [createdIds_concat]
      rw [appendedIds_concat] at hc
      rcases List.mem_append.mp hc with hc | hc
      · exact List.mem_append_left _ (hsub c hc)
      rcases hstep.cases with ⟨rfl, -⟩ | ⟨_, _, _, _, rfl, -⟩ |
        ⟨call, now, w, stop, s, hw, hcall, hproc, hentry, -⟩
      · simp [TurnEvent.appendedTo] at hc
      · simp [TurnEvent.appendedTo] at hc
      · obtain ⟨rfl, c', now', rfl⟩ := hq.write hw
        obtain ⟨rfl, rfl⟩ := Prod.mk.inj (Option.some.inj hcall)
        rcases acked_ids hentry with ⟨-, -, -, happ⟩ | ⟨a, rfl, -, -, -, happ⟩
        · simp [happ] at hc
        · obtain rfl : c = a.contextId := by simpa [happ] using hc
          have hmem := contextId_mem_heads hentry (hnames s hproc)
          rw [(hmir.live s hproc).2.1, mem_headMap, hnum.heads] at hmem
          rcases hmem with hmem | hmem
          · exact List.mem_append_left _ hmem
          · exact List.mem_append_left _ (hsub _ hmem)

/-- An append to a context that has no head fails exactly when it names an existing
context, that is, when it does not give a stored turn as its parent; it then changes
nothing. -/
theorem append_unknown_context {s : TurnStore} {d : DataDir} {a : AppendArgs} {now : UInt64}
    (hc : a.contextId ∉ s.heads) :
    (∃ what, runCall ((TurnCall.appendTurn a).run now) s d none =
      (.error (.notFound what), s, d)) ↔ s.Knows a := by
  have hnone : s.heads.lookup a.contextId = none := Finmap.lookup_eq_none.mpr hc
  rw [TurnCall.run_eq]
  constructor
  · rintro ⟨what, hrun⟩ hp hmem
    obtain ⟨r, hr⟩ := Finmap.mem_iff.mp hmem
    simp [TurnStore.entryOf, TurnStore.parentOf, hp, hr, Except.map, Entry.outcome,
      Entry.stop] at hrun
  · intro hk
    by_cases hp : a.parentTurnId = 0
    · exact ⟨"context", by simp [TurnStore.entryOf, TurnStore.parentOf, hp, hnone, Except.map]⟩
    · have hmem : a.parentTurnId ∉ s.turns := fun hmem => hc (hk hp hmem)
      exact ⟨"parent turn", by
        simp [TurnStore.entryOf, TurnStore.parentOf, hp, Finmap.lookup_eq_none.mpr hmem,
          Except.map]⟩

/-- **Context ids are unique.** In every run of calls and reopenings whose appends name
existing contexts: no two calls have created the same context, the next `create_context`
returns an id without a head, and an append to a context that no call created fails with
`NotFound` and changes nothing, exactly when it names an existing context in turn. -/
theorem context_ids_unique {es : List TurnEvent} {m : TurnSystem}
    (h : Run (Guarded (fun m e => e.Quiet ∧ NamesContext m e) TurnStep) TurnSystem.initial
      es m) :
    (createdIds es).Nodup ∧ ∀ s, m.proc = some s →
      (∀ base now head s' d',
        runCall ((TurnCall.createContext base).run now) s m.disk none =
          (.ok (.context head), s', d') →
        head.contextId ∉ s.heads ∧ head.contextId ∉ createdIds es) ∧
      ∀ a now, a.contextId ∉ createdIds es →
        ((∃ what, runCall ((TurnCall.appendTurn a).run now) s m.disk none =
          (.error (.notFound what), s, m.disk)) ↔ s.Knows a) := by
  obtain ⟨hmir, hnum, hsub⟩ := numbered_of_namesContext h
  refine ⟨hnum.nodup, fun s hs => ?_⟩
  have hheads : ∀ c, c ∈ s.heads ↔ c ∈ createdIds es := by
    intro c
    rw [(hmir.live s hs).2.1, mem_headMap, hnum.heads]
    exact ⟨fun hc => hc.elim id (hsub c), Or.inl⟩
  constructor
  · intro base now head s' d' hrun
    rw [hheads, and_self]
    rw [TurnCall.run_eq] at hrun
    split at hrun
    · simp at hrun
    next w hw =>
    obtain ⟨b, -, rfl⟩ := entryOf_create hw
    simp only [Entry.outcome, Entry.stop, Entry.reply, if_true, Prod.mk.injEq,
      Except.ok.injEq, TurnReply.context.injEq] at hrun
    rw [← hrun.1, hnum.mem_createdIds, hnum.next s hs]
    omega
  · intro a now ha
    exact append_unknown_context (by rwa [hheads])

set_option maxRecDepth 2000 in
/-- `context_ids_unique` on a fork. -/
theorem context_ids_unique_forkInputs :
    ∃ es m, execAll (fun m e => e.Quiet ∧ NamesContext m e) TurnSystem.exec
        TurnSystem.initial forkInputs = some (es, m) ∧ createdIds es = [1, 2] ∧
      (createdIds es).Nodup := by
  obtain ⟨es, m, h, hrun, hids⟩ := TurnSystem.exists_run
    (fun m e => e.Quiet ∧ NamesContext m e) forkInputs (fun es _ => createdIds es = [1, 2])
    (by decide +kernel)
  exact ⟨es, m, h, hids, (context_ids_unique hrun).1⟩

/-! ### An append to a context that does not exist -/

/-- An append with an explicit parent to context 2, which nobody has created. -/
def claimInputs : List TurnInput :=
  [.opening, .call (.createContext 0) 0, .call (plainAppend 1 0) 1,
    .call (plainAppend 2 1) 2]

set_option maxRecDepth 2000 in
/-- **An append claims the next context id.** The append to context 2 is acknowledged
although only context 1 has been created, and the `create_context` after it returns 2,
which has a head already. -/
theorem append_claims_next_context_id :
    ∃ es m s head, execAll (fun _ e => e.Quiet) TurnSystem.exec TurnSystem.initial
        claimInputs = some (es, m) ∧
      Run TurnStep TurnSystem.initial es m ∧ m.proc = some s ∧
      (2 ∈ appendedIds es ∧ 2 ∉ createdIds es) ∧
      (runCall ((TurnCall.createContext 0).run 3) s m.disk none).1 = .ok (.context head) ∧
      head.contextId ∈ s.heads := by
  obtain ⟨es, m, h, hrun, hids, hproc, hnext⟩ := TurnSystem.exists_run (fun _ e => e.Quiet)
    claimInputs
    (fun es m => (2 ∈ appendedIds es ∧ 2 ∉ createdIds es) ∧ m.proc.isSome = true ∧
      ∀ s ∈ m.proc, s.nextContextId ∈ s.heads)
    (by decide)
  obtain ⟨s, hs⟩ := Option.isSome_iff_exists.mp hproc
  refine ⟨es, m, s, ⟨s.nextContextId, 0, 0, 3, 0⟩, h, hrun.of_guarded, hs, hids, ?_,
    hnext s hs⟩
  rw [TurnCall.run_eq]
  rfl

end Cxdb
