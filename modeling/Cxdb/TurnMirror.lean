import Cxdb.TurnInvariant

/-!
# Memory in Step with the Log

As long as no call fails and goes on, the maps of a running process are exactly what its
files replay to: a call that returns has written all of its entry, and a call that does
not return has taken the process with it. The turn ids are then `1, 2, 3, …`, and the
counter cannot wrap, since every turn takes 80 bytes of a log that fits a file.

## Main results

* `Mirror.step`: memory stays in step with `turns.log` and `heads.tbl`.
* `MetaMirror.step`: memory stays in step with `turns.meta`.
-/

open ByteFormat FaultyDisk RecordLog LastWrite Transition

namespace Cxdb

/-- No call of the event fails while the process goes on. -/
def TurnEvent.NoFailure : TurnEvent → Prop
  | .failed _ _ _ _ => False
  | _ => True

instance : DecidablePred TurnEvent.NoFailure
  | .failed _ _ _ _ => inferInstanceAs (Decidable False)
  | .opened | .acked _ _ _ | .rejected _ _ _ | .crashed _ _ _ _ =>
      inferInstanceAs (Decidable True)

/-- A write of such an event is whole, or the process is gone. -/
theorem TurnEvent.NoFailure.cases {e : TurnEvent} {w : Entry}
    {stop : Option (Fault DataFile)} (h : e.NoFailure) (hw : e.write = some (w, stop)) :
    (stop = none ∧ e.survives = true) ∨ e.survives = false := by
  cases e with
  | acked => exact Or.inl ⟨by cases hw; rfl, rfl⟩
  | failed => exact h.elim
  | crashed => exact Or.inr rfl
  | opened | rejected => simp [TurnEvent.write] at hw

/-! ### Consecutive ids -/

/-- The ids are `1, 2, 3, …`. -/
def Consecutive (turns : List TurnRecord) : Prop :=
  turns.map (fun r => r.turnId.toNat) = List.range' 1 turns.length

theorem Consecutive.concat {turns : List TurnRecord} {r : TurnRecord}
    (h : Consecutive turns) (hr : r.turnId.toNat = turns.length + 1) :
    Consecutive (turns ++ [r]) := by
  unfold Consecutive at h ⊢
  rw [List.map_append, h, List.length_append, List.length_singleton, List.range'_1_concat,
    List.map_singleton, hr, Nat.add_comm 1]

/-- An id is at least 1 and at most the number of turns. -/
theorem Consecutive.mem {turns : List TurnRecord} {r : TurnRecord} (h : Consecutive turns)
    (hr : r ∈ turns) : 0 < r.turnId.toNat ∧ r.turnId.toNat ≤ turns.length := by
  have : r.turnId.toNat ∈ List.range' 1 turns.length := h ▸ List.mem_map_of_mem hr
  rw [List.mem_range'_1] at this
  omega

theorem Consecutive.last {turns : List TurnRecord} {r : TurnRecord}
    (h : Consecutive (turns ++ [r])) : r.turnId.toNat = turns.length + 1 := by
  unfold Consecutive at h
  rw [List.map_append, List.length_append, List.length_singleton, List.range'_1_concat] at h
  have := (List.append_inj' h rfl).2
  simp only [List.map_singleton, List.cons.injEq, and_true] at this
  omega

/-- After opening, the counter is one more than the number of turns. -/
theorem Consecutive.nextId {turns : List TurnRecord} (h : Consecutive turns)
    (hsize : turns.length < 2 ^ 63) :
    (nextId (turnMap turns) 1).toNat = turns.length + 1 := by
  rcases List.eq_nil_or_concat' turns with rfl | ⟨init, r, rfl⟩
  · rfl
  · have hlast := h.last
    have hmax : ∀ k ∈ turnMap (init ++ [r]), k ≤ r.turnId := by
      intro k hk
      obtain ⟨r', hr', rfl⟩ := mem_turnMap.mp hk
      have hle := (h.mem hr').2
      rw [List.length_append, List.length_singleton] at hle
      exact UInt64.le_iff_toNat_le.mpr (by omega)
    rw [nextId_eq 1 (mem_turnMap.mpr ⟨r, by simp, rfl⟩) hmax]
    rw [List.length_append, List.length_singleton] at hsize ⊢
    rw [toNat_add_one (by omega)]
    omega

/-! ### Turns and heads -/

/-- The turn and head maps of the process are those of the journal, the ids are
consecutive, and a running process has an aligned log. -/
structure Mirror (j : Journal) (m : TurnSystem) : Prop where
  log : LogKept j m
  heads : HeadsKept j m
  ids : Consecutive j.turns
  size : 80 * j.turns.length < 2 ^ 63
  aligned : m.proc ≠ none → turnsLogFraming.unread (m.disk .turnsLog) = []
  live : ∀ s, m.proc = some s → s.turns = turnMap j.turns ∧ s.heads = headMap j.heads ∧
    s.nextTurnId.toNat = j.turns.length + 1

theorem Mirror.initial : Mirror (journalOf []) TurnSystem.initial where
  log := LogKept.initial
  heads := HeadsKept.initial
  ids := rfl
  size := by simp [journalOf]
  aligned h := absurd rfl h
  live s h := by simp [TurnSystem.initial] at h

/-- The counter of a process in step does not wrap. -/
theorem Mirror.hasRoom {j : Journal} {m : TurnSystem} (h : Mirror j m) (e : TurnEvent) :
    HasRoom m e := by
  intro s hs p _ _
  have := h.size
  rw [(h.live s hs).2.2]
  omega

/-- A process in step appends to an aligned log. -/
theorem Mirror.aligned_turnsLog {j : Journal} {m m' : TurnSystem} {e : TurnEvent}
    (h : Mirror j m) (hs : TurnStep m e m') : Aligned turnsLogFraming .turnsLog m e := by
  intro p hw _
  rcases hs.cases with ⟨rfl, -⟩ | ⟨_, _, _, _, rfl, -⟩ | ⟨_, _, _, _, s, -, -, hproc, -⟩
  · simp [TurnEvent.write] at hw
  · simp [TurnEvent.write] at hw
  · exact h.aligned (by simp [hproc])

/-- The maps after a call that returns. -/
theorem after_none_maps (s : TurnStore) (w : Entry) (offset : ℕ) :
    (s.after w offset none).turns =
      (match w.turn with
        | none => s.turns
        | some t => s.turns.insert t.1.turnId t.1) ∧
    (s.after w offset none).turnMeta =
      (match w.turn with
        | none => s.turnMeta
        | some t => s.turnMeta.insert t.1.turnId t.2) ∧
    (s.after w offset none).heads = s.heads.insert w.head.contextId w.head := by
  obtain ⟨_ | t, head⟩ := w <;> exact ⟨rfl, rfl, rfl⟩

/-- **Memory stays in step.** -/
theorem Mirror.step {es : List TurnEvent} {m m' : TurnSystem} {e : TurnEvent}
    (h : Mirror (journalOf es) m) (hs : TurnStep m e m') (hno : e.NoFailure)
    (hal : Aligned headsTblFraming .headsTbl m e) : Mirror (journalOf (es ++ [e])) m' := by
  have hlog := h.log.step hs (h.aligned_turnsLog hs) (h.hasRoom e)
  have hheads := h.heads.step hs hal
  rcases hs.cases with ⟨rfl, s, d', ho, rfl⟩ | ⟨c, now, err, s, rfl, -, -, rfl⟩ |
    ⟨c, now, w, stop, s, hw, -, hproc, hentry, hdisk, hfit, hproc'⟩
  · rw [journalOf_concat_of_no_write rfl] at hlog hheads ⊢
    obtain ⟨hturns, hnext, hlay⟩ := h.log.opened ho
    refine ⟨hlog, hheads, h.ids, h.size, fun _ => hlay.unread, ?_⟩
    rintro s' hs'
    obtain rfl := Option.some.inj hs'
    refine ⟨hturns, (h.heads.opened ho).1, ?_⟩
    rw [hnext]
    exact h.ids.nextId (by have := h.size; omega)
  · rw [journalOf_concat_of_no_write rfl]
    exact h
  · rw [journalOf_concat_of_write hw] at hlog hheads ⊢
    obtain ⟨hturns, hheadMap, hnext⟩ := h.live s hproc
    obtain ⟨tail, hlay⟩ := hlog.layout
    refine ⟨hlog, hheads, ?_, ?_, ?_, ?_⟩
    · cases ht : w.turn with
      | none => simpa [Entry.saved, ht] using h.ids
      | some t =>
          simp only [Journal.append_turns, Entry.saved, ht]
          split
          · exact h.ids.concat ((entryOf_turnId hentry ht).symm ▸ hnext)
          · simpa using h.ids
    · have hlen := length_turnsLog hlay
      have := hfit .turnsLog
      omega
    · intro hlive
      rcases hno.cases hw with ⟨rfl, -⟩ | hdead
      · have hun := h.aligned (by simp [hproc])
        obtain ⟨tail₀, hlay₀⟩ := h.log.layout
        obtain rfl : tail₀ = [] := hlay₀.unread.symm.trans hun
        rw [hdisk]
        refine (layout_turnsLog_call w (m.disk .turnsLog).length none hlay₀
          fun _ => rfl).unread.trans ?_
        simp [Entry.tails, whole]
      · rw [hproc', hdead] at hlive
        exact absurd rfl hlive
    · intro s' hs'
      rcases hno.cases hw with ⟨rfl, hsurv⟩ | hdead
      · rw [hproc', hsurv] at hs'
        obtain rfl := Option.some.inj hs'
        obtain ⟨hturns', -, hheads'⟩ := after_none_maps s w (m.disk .turnsLog).length
        rw [hturns', hheads', after_nextTurnId, hturns, hheadMap, Entry.saved_none]
        simp only [Journal.append_turns, Journal.append_heads, headMap_concat, true_and]
        cases ht : w.turn with
        | none => simp [hnext]
        | some t =>
            have := h.size
            simp only [Option.map_some, Option.toList_some, turnMap_concat, true_and,
              List.length_append, List.length_singleton]
            rw [if_neg (by simp), toNat_add_one (by omega), hnext]
      · rw [hproc', hdead] at hs'
        exact absurd hs' (by simp)

/-! ### Metadata -/

/-- The metadata map of the process is that of the journal. -/
structure MetaMirror (j : Journal) (m : TurnSystem) : Prop where
  metas : MetaKept j m
  live : ∀ s, m.proc = some s → s.turnMeta = metaMap j.metas

theorem MetaMirror.initial : MetaMirror (journalOf []) TurnSystem.initial :=
  ⟨MetaKept.initial, fun s h => by simp [TurnSystem.initial] at h⟩

/-- **The metadata stays in step.** -/
theorem MetaMirror.step {es : List TurnEvent} {m m' : TurnSystem} {e : TurnEvent}
    (h : MetaMirror (journalOf es) m) (hlog : LogKept (journalOf es) m)
    (hs : TurnStep m e m') (hno : e.NoFailure)
    (hal : Aligned turnsMetaFraming .turnsMeta m e) (hfits : e.TypeIdFits) :
    MetaMirror (journalOf (es ++ [e])) m' := by
  refine ⟨h.metas.step hlog hs hal hfits, ?_⟩
  intro s' hs'
  rcases hs.cases with ⟨rfl, s, d', ho, rfl⟩ | ⟨c, now, err, s, rfl, -, -, rfl⟩ |
    ⟨c, now, w, stop, s, hw, -, hproc, -, -, -, hproc'⟩
  · obtain rfl := Option.some.inj hs'
    rw [journalOf_concat_of_no_write rfl]
    exact h.metas.opened ho
  · rw [journalOf_concat_of_no_write rfl]
    exact h.live s' hs'
  · rcases hno.cases hw with ⟨rfl, hsurv⟩ | hdead
    · rw [hproc', hsurv] at hs'
      obtain rfl := Option.some.inj hs'
      rw [(after_none_maps s w (m.disk .turnsLog).length).2.1, h.live s hproc,
        journalOf_concat_of_write hw, Entry.saved_none]
      cases ht : w.turn with
      | none => simp
      | some t => simp [metaMap_concat]
    · rw [hproc', hdead] at hs'
      exact absurd hs' (by simp)

/-! ### Quiet runs -/

/-- Calls that return or are rejected, and reopenings: nothing fails and nothing crashes. -/
def TurnEvent.Quiet : TurnEvent → Prop
  | .failed _ _ _ _ | .crashed _ _ _ _ => False
  | .opened | .acked _ _ _ | .rejected _ _ _ => True

instance : DecidablePred TurnEvent.Quiet
  | .failed _ _ _ _ | .crashed _ _ _ _ => inferInstanceAs (Decidable False)
  | .opened | .acked _ _ _ | .rejected _ _ _ => inferInstanceAs (Decidable True)

theorem TurnEvent.Quiet.noFailure {e : TurnEvent} (h : e.Quiet) : e.NoFailure := by
  cases e with
  | failed | crashed => exact h.elim
  | opened | acked | rejected => trivial

/-- A quiet event writes its entry whole. -/
theorem TurnEvent.Quiet.write {e : TurnEvent} {w : Entry} {stop : Option (Fault DataFile)}
    (h : e.Quiet) (hw : e.write = some (w, stop)) :
    stop = none ∧ ∃ c now, e = .acked c now w := by
  cases e with
  | acked c now w' => cases hw; exact ⟨rfl, c, now, rfl⟩
  | failed | crashed => exact h.elim
  | opened | rejected => simp [TurnEvent.write] at hw

/-- A quiet step leaves no torn record in the head table. -/
theorem TurnStep.settled_headsTbl {m m' : TurnSystem} {e : TurnEvent}
    {heads : List ContextHead} (hs : TurnStep m e m') (hq : e.Quiet)
    (h : headsTblFraming.Layout (m.disk .headsTbl) heads []) :
    headsTblFraming.unread (m'.disk .headsTbl) = [] := by
  rcases hs.cases with ⟨rfl, s, d', ho, rfl⟩ | ⟨c, now, err, s, rfl, -, -, rfl⟩ |
    ⟨c, now, w, stop, s, hw, -, -, -, hdisk, -, -⟩
  · obtain ⟨-, -, hheads, -⟩ := openDir_ok ho
    rw [loadHeads_of_layout h] at hheads
    simp only [Except.ok.injEq, Prod.mk.injEq] at hheads
    change headsTblFraming.unread (d' .headsTbl) = []
    rw [← hheads.2]
    exact h.kept.unread.trans Framing.kept_nil
  · exact h.unread
  · obtain ⟨rfl, -⟩ := hq.write hw
    rw [hdisk]
    refine (layout_headsTbl_call w (m.disk .turnsLog).length none h
      fun _ => rfl).unread.trans ?_
    simp [Entry.tails, whole]

/-- **Quiet runs.** Memory stays in step with log and head table, whatever the type ids. -/
theorem mirror_of_quiet {es : List TurnEvent} {m : TurnSystem}
    (h : Run (Guarded (fun _ e => e.Quiet) TurnStep) TurnSystem.initial es m) :
    Mirror (journalOf es) m ∧
      headsTblFraming.Layout (m.disk .headsTbl) (journalOf es).heads [] := by
  refine h.invariant (I := fun es m => Mirror (journalOf es) m ∧
      headsTblFraming.Layout (m.disk .headsTbl) (journalOf es).heads [])
    ⟨Mirror.initial, Framing.layout_nil⟩ ?_
  rintro es m e m' ⟨hmir, hlay⟩ ⟨hq, hs⟩
  have hmir' := hmir.step hs hq.noFailure fun _ _ _ => hlay.unread
  refine ⟨hmir', ?_⟩
  obtain ⟨tail, hlay'⟩ := hmir'.heads.layout
  obtain rfl : tail = [] := hlay'.unread.symm.trans (hs.settled_headsTbl hq hlay)
  exact hlay'

/-- A quiet step leaves no torn record in the metadata file. -/
theorem TurnStep.settled_turnsMeta {m m' : TurnSystem} {e : TurnEvent}
    {metas : List (UInt64 × TurnMeta)} (hs : TurnStep m e m') (hq : e.Quiet)
    (hfits : e.TypeIdFits) (h : turnsMetaFraming.Layout (m.disk .turnsMeta) metas []) :
    turnsMetaFraming.unread (m'.disk .turnsMeta) = [] := by
  rcases hs.cases with ⟨rfl, s, d', ho, rfl⟩ | ⟨c, now, err, s, rfl, -, -, rfl⟩ |
    ⟨c, now, w, stop, s, hw, -, -, -, hdisk, -, -⟩
  · obtain ⟨-, hmeta, -⟩ := openDir_ok ho
    rw [loadMeta_of_layout h] at hmeta
    simp only [Except.ok.injEq, Prod.mk.injEq] at hmeta
    change turnsMetaFraming.unread (d' .turnsMeta) = []
    rw [← hmeta.2]
    exact h.kept.unread.trans Framing.kept_nil
  · exact h.unread
  · obtain ⟨rfl, -⟩ := hq.write hw
    rw [hdisk]
    refine (layout_turnsMeta_call w (m.disk .turnsLog).length none h
      (hfits (w, none) hw) fun _ => rfl).unread.trans ?_
    simp [Entry.tails, whole]

/-- **Quiet runs with type ids that fit.** Memory stays in step with the metadata too. -/
theorem metaMirror_of_quiet {es : List TurnEvent} {m : TurnSystem}
    (h : Run (Guarded (fun _ e => e.Quiet ∧ e.TypeIdFits) TurnStep) TurnSystem.initial
      es m) :
    MetaMirror (journalOf es) m ∧
      turnsMetaFraming.Layout (m.disk .turnsMeta) (journalOf es).metas [] := by
  induction h with
  | start => exact ⟨MetaMirror.initial, Framing.layout_nil⟩
  | @next es m m' e hrun hs ih =>
      obtain ⟨⟨hq, hfits⟩, hs⟩ := hs
      obtain ⟨hmeta, hlay⟩ := ih
      obtain ⟨hmir, -⟩ := mirror_of_quiet (hrun.mono fun _ _ _ hs => ⟨hs.1.1, hs.2⟩)
      have hmeta' := hmeta.step hmir.log hs hq.noFailure (fun _ _ _ => hlay.unread) hfits
      refine ⟨hmeta', ?_⟩
      obtain ⟨tail, hlay'⟩ := hmeta'.metas.layout
      obtain rfl : tail = [] :=
        hlay'.unread.symm.trans (hs.settled_turnsMeta hq hfits hlay)
      exact hlay'

/-- The turns of a quiet run are those its calls returned. -/
theorem journalOf_turns_of_quiet {es : List TurnEvent} (h : ∀ e ∈ es, e.Quiet) :
    (journalOf es).turns = (ackedEntries es).filterMap fun w => w.turn.map Prod.fst := by
  induction es with
  | nil => rfl
  | cons e es ih =>
      have ih := ih fun e' he' => h e' (by simp [he'])
      simp only [journalOf] at ih
      simp only [journalOf, List.flatMap_cons, ih]
      cases e with
      | acked c now w =>
          have hsaved : (TurnEvent.acked c now w).saved = w.saved none := saved_of_write rfl
          rw [hsaved, Entry.saved_none]
          cases ht : w.turn <;> simp [ackedEntries, ht]
      | failed | crashed => exact False.elim (h _ List.mem_cons_self)
      | opened | rejected => rfl

/-- The events of a guarded run meet a condition on events alone. -/
theorem forall_mem_of_guarded {C : TurnEvent → Prop} {es : List TurnEvent} {m : TurnSystem}
    (h : Run (Guarded (fun _ e => C e) TurnStep) TurnSystem.initial es m) :
    ∀ e ∈ es, C e := by
  induction h with
  | start => simp
  | next _ hs ih =>
      intro e he
      rcases List.mem_append.mp he with he | he
      · exact ih e he
      · exact List.mem_singleton.mp he ▸ hs.1

end Cxdb
