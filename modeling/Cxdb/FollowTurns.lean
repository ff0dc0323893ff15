import Cxdb.Confinement
import Cxdb.TurnDecoders

/-!
# Following a Context

`follow_turns` of `follow.rs` and `FollowTurns` of `follow.go`: whenever an event says that
a turn was appended, the follower reads the head of the context, works out from its depth
how many turns are missing, and asks for that many of the last turns. Contexts grow at
their heads at any moment, also between the two requests.

## Main results

* `FollowState.Tracks.deliver`: the turns that come next are all delivered.
* `FollowSystem.Synced.step`: what a step keeps.
* `followTurns_delivers`: each turn is delivered once and in order, when no context grows
  between the two requests of its follower.
* `TurnStore.Linked.answers`, `TurnStore.Linked.appends`: the store answers and appends as
  the follower's contexts do.
-/

open Transition ParentChain

namespace Cxdb

variable {τ : Type}

/-! ### The state of a follower -/

/-- `FollowState`: what the follower remembers of a context. -/
structure FollowState where
  hasLast : Bool
  lastSeenTurnId : UInt64
  lastSeenDepth : UInt32
  seen : Finset UInt64
  seenOrder : List UInt64
  maxSeen : ℕ

/-- `DEFAULT_MAX_SEEN_PER_CONTEXT`. -/
def defaultMaxSeenPerContext : ℕ := 2048

/-- `FollowState::new`; a limit of 0 stands for the default. -/
def FollowState.new (maxSeen : ℕ) : FollowState where
  hasLast := false
  lastSeenTurnId := 0
  lastSeenDepth := 0
  seen := ∅
  seenOrder := []
  maxSeen := if maxSeen = 0 then defaultMaxSeenPerContext else maxSeen

/-- The loop of `record_turn` that forgets the oldest turns. -/
def forgetOldest (maxSeen : ℕ) : List UInt64 → Finset UInt64 → List UInt64 × Finset UInt64
  | [], seen => ([], seen)
  | oldest :: order, seen =>
      if maxSeen < order.length + 1 then forgetOldest maxSeen order (seen.erase oldest)
      else (oldest :: order, seen)

/-- `record_turn`. -/
def FollowState.recordTurn (st : FollowState) (turn : ClientTurn τ) : FollowState :=
  let kept := forgetOldest st.maxSeen (st.seenOrder ++ [turn.turnId])
    (insert turn.turnId st.seen)
  let st' := { st with seenOrder := kept.1, seen := kept.2 }
  if st.hasLast = false ∨ st.lastSeenDepth ≤ turn.depth then
    { st' with hasLast := true, lastSeenDepth := turn.depth, lastSeenTurnId := turn.turnId }
  else st'

/-- The loop of `sync_context` over the turns it has fetched: the turns it sends, and the
state it ends with. -/
def FollowState.deliver (st : FollowState) :
    List (ClientTurn τ) → List (ClientTurn τ) × FollowState
  | [] => ([], st)
  | turn :: turns =>
      if turn.turnId ∈ st.seen then st.deliver turns
      else
        let rest := (st.recordTurn turn).deliver turns
        (turn :: rest.1, rest.2)

/-- How many turns `sync_context` asks for. The clients test different things for having
delivered a turn before. -/
def FollowState.missing (st : FollowState) (headDepth : UInt32) : ClientLib → UInt32
  | .rust =>
      if st.hasLast = true ∧ st.seen ≠ ∅ then
        if headDepth ≤ st.lastSeenDepth then 0 else headDepth - st.lastSeenDepth
      else headDepth + 1
  | .go =>
      if st.hasLast = true then
        if st.lastSeenDepth < headDepth then headDepth - st.lastSeenDepth else 0
      else headDepth + 1

/-! ### The system -/

/-- The errors that a follower reports. -/
inductive FollowError where
  | decode (msg : String)
  | client (msg : String)
  | regressed (contextId : UInt64)

/-- What the data of an event turns out to be. -/
inductive EventData where
  | empty
  | malformed (msg : String)
  | turn (contextId turnId : UInt64)

/-- An event of the stream. -/
structure StreamEvent where
  eventType : String
  data : EventData

/-- `decode_turn_appended_event`, as far as the follower reads the result. -/
def decodeTurnAppendedEvent : EventData → Except FollowError UInt64
  | .empty => .error (.decode "turn_appended: empty payload")
  | .malformed msg => .error (.decode ("turn_appended: decode: " ++ msg))
  | .turn contextId turnId =>
      if contextId = 0 then .error (.decode "turn_appended: missing context_id")
      else if turnId = 0 then .error (.decode "turn_appended: missing turn_id")
      else .ok contextId

/-- The event says that `contextId` has a new turn. -/
def StreamEvent.Names (ev : StreamEvent) (contextId : UInt64) : Prop :=
  ev.eventType = "turn_appended" ∧ decodeTurnAppendedEvent ev.data = .ok contextId

/-- What the follower is waiting for: an event, the answer to `get_head`, or the answer to
`get_last` with a limit that it worked out from the head it had read. -/
inductive FollowPhase where
  | idle
  | heading (contextId : UInt64)
  | fetching (contextId : UInt64) (headDepth limit : UInt32)
  deriving DecidableEq

structure FollowTurn (τ : Type) where
  contextId : UInt64
  turn : ClientTurn τ

/-- The turns of every context from its first one on, and the follower with what it has
sent. A context that does not exist yet has no turns. -/
structure FollowSystem (τ : Type) where
  contexts : UInt64 → List (ClientTurn τ)
  states : UInt64 → FollowState
  phase : FollowPhase
  out : List (FollowTurn τ)
  errs : List FollowError

/-- A follower that has not received an event yet. -/
def FollowSystem.initial (contexts : UInt64 → List (ClientTurn τ)) (maxSeen : ℕ) :
    FollowSystem τ :=
  ⟨contexts, fun _ => .new maxSeen, .idle, [], []⟩

/-- The turns of a context that the follower has sent. -/
def FollowSystem.delivered (s : FollowSystem τ) (contextId : UInt64) : List (ClientTurn τ) :=
  (s.out.filter fun t => t.contextId = contextId).map FollowTurn.turn

inductive FollowEvent (τ : Type) where
  | append (contextId : UInt64) (turn : ClientTurn τ)
  | received (ev : StreamEvent)
  | gotHead
  | gotLast
  | failed (msg : String)

/-- The depth in the answer to `get_head`; 0 when the context is empty. -/
def headDepth (turns : List (ClientTurn τ)) : UInt32 :=
  match turns.getLast? with
  | none => 0
  | some turn => turn.depth

/-- The answer to `get_last`: the last turns, oldest first. -/
def lastTurns (limit : UInt32) (turns : List (ClientTurn τ)) : List (ClientTurn τ) :=
  turns.drop (turns.length - limit.toNat)

/-- `sync_context` with the answer to `get_head`. -/
def FollowSystem.gotHead (lib : ClientLib) (s : FollowSystem τ) (contextId : UInt64) :
    FollowSystem τ :=
  let st := s.states contextId
  let depth := headDepth (s.contexts contextId)
  if st.hasLast = true ∧ depth < st.lastSeenDepth then
    { s with phase := .idle, errs := s.errs ++ [.regressed contextId] }
  else if st.missing depth lib = 0 then { s with phase := .idle }
  else { s with phase := .fetching contextId depth (st.missing depth lib) }

/-- `sync_context` with the answer to `get_last`. -/
def FollowSystem.gotLast (s : FollowSystem τ) (contextId : UInt64) (limit : UInt32) :
    FollowSystem τ :=
  let sent := (s.states contextId).deliver (lastTurns limit (s.contexts contextId))
  { s with
    states := Function.update s.states contextId sent.2
    phase := .idle
    out := s.out ++ sent.1.map fun turn => ⟨contextId, turn⟩ }

/-- The steps of the system. A turn is appended to the head of its context, with a new id
and the next depth; the follower does one thing at a time; and its requests may fail. -/
def FollowSystem.exec (lib : ClientLib) (s : FollowSystem τ) :
    FollowEvent τ → Option (FollowSystem τ)
  | .append c turn =>
      if turn.turnId ∉ (s.contexts c).map ClientTurn.turnId ∧
          turn.depth = UInt32.ofNat (s.contexts c).length then
        some { s with contexts := Function.update s.contexts c (s.contexts c ++ [turn]) }
      else none
  | .received ev =>
      match s.phase with
      | .idle =>
          if ev.eventType = "turn_appended" then
            match decodeTurnAppendedEvent ev.data with
            | .error e => some { s with errs := s.errs ++ [e] }
            | .ok c => some { s with phase := .heading c }
          else some s
      | _ => none
  | .gotHead =>
      match s.phase with
      | .heading c => some (s.gotHead lib c)
      | _ => none
  | .gotLast =>
      match s.phase with
      | .fetching c _ limit => some (s.gotLast c limit)
      | _ => none
  | .failed msg =>
      match s.phase with
      | .idle => none
      | _ => some { s with phase := .idle, errs := s.errs ++ [.client msg] }

/-! ### A follower in step with its context -/

/-- A context as the server builds it: ids are used once, the depth of a turn is its
position, and there are fewer turns than depths. -/
structure Chained (turns : List (ClientTurn τ)) : Prop where
  nodup : (turns.map ClientTurn.turnId).Nodup
  depth : ∀ (i : ℕ) (turn : ClientTurn τ), turns[i]? = some turn → turn.depth.toNat = i
  length : turns.length < 2 ^ 32

/-- The follower has sent the turns `ds`, in this order. -/
structure FollowState.Tracks (st : FollowState) (ds : List (ClientTurn τ)) : Prop where
  positive : 0 < st.maxSeen
  hasLast : st.hasLast = true ↔ ds ≠ []
  lastSeen : ∀ turn ∈ ds.getLast?, st.lastSeenDepth = turn.depth
  order : st.seenOrder <:+ ds.map ClientTurn.turnId
  seen : st.seen = st.seenOrder.toFinset
  recent : ds ≠ [] → st.seenOrder ≠ []

theorem FollowState.Tracks.new (maxSeen : ℕ) :
    (FollowState.new maxSeen).Tracks ([] : List (ClientTurn τ)) where
  positive := by
    simp only [FollowState.new, defaultMaxSeenPerContext]
    split <;> omega
  hasLast := by simp [FollowState.new]
  lastSeen := by simp
  order := List.suffix_refl _
  seen := rfl
  recent := fun h => absurd rfl h

/-- What is kept are the newest ids, at least one. -/
theorem forgetOldest_spec {maxSeen : ℕ} (hpos : 0 < maxSeen) {order : List UInt64}
    (hnodup : order.Nodup) :
    (forgetOldest maxSeen order order.toFinset).1 <:+ order ∧
      (forgetOldest maxSeen order order.toFinset).2 =
        (forgetOldest maxSeen order order.toFinset).1.toFinset ∧
      (order ≠ [] → (forgetOldest maxSeen order order.toFinset).1 ≠ []) := by
  induction order with
  | nil => exact ⟨List.suffix_refl _, rfl, fun h => absurd rfl h⟩
  | cons oldest order ih =>
      obtain ⟨hold, hnodup⟩ := List.nodup_cons.mp hnodup
      rw [forgetOldest]
      split
      next hlong =>
        have herase : (oldest :: order).toFinset.erase oldest = order.toFinset := by
          rw [List.toFinset_cons, Finset.erase_insert (by simpa using hold)]
        rw [herase]
        obtain ⟨hsuffix, hseen, hne⟩ := ih hnodup
        refine ⟨hsuffix.trans (List.suffix_cons _ _), hseen, fun _ => hne ?_⟩
        rintro rfl
        simp only [List.length_nil] at hlong
        omega
      · exact ⟨List.suffix_refl _, rfl, fun _ => List.cons_ne_nil _ _⟩

/-- Recording the turn that was sent. -/
theorem FollowState.Tracks.recordTurn {st : FollowState} {ds : List (ClientTurn τ)}
    {turn : ClientTurn τ} (h : st.Tracks ds)
    (hnodup : ((ds ++ [turn]).map ClientTurn.turnId).Nodup)
    (hdepth : ∀ last ∈ ds.getLast?, last.depth ≤ turn.depth) :
    (st.recordTurn turn).Tracks (ds ++ [turn]) := by
  rw [List.map_append, List.map_singleton] at hnodup
  have horder : st.seenOrder ++ [turn.turnId] <:+ ds.map ClientTurn.turnId ++ [turn.turnId] := by
    obtain ⟨older, holder⟩ := h.order
    exact ⟨older, by rw [← List.append_assoc, holder]⟩
  have hinsert : insert turn.turnId st.seen = (st.seenOrder ++ [turn.turnId]).toFinset := by
    rw [h.seen, List.toFinset_append, Finset.union_comm]
    rfl
  have hlast : st.hasLast = false ∨ st.lastSeenDepth ≤ turn.depth := by
    cases hds : ds.getLast? with
    | none =>
        left
        have := h.hasLast
        rw [List.getLast?_eq_none_iff.mp hds] at this
        simpa using this
    | some last =>
        right
        rw [h.lastSeen last hds]
        exact hdepth last hds
  obtain ⟨hsuffix, hseen, hne⟩ := forgetOldest_spec h.positive (hnodup.sublist horder.sublist)
  rw [← hinsert] at hsuffix hseen hne
  rw [FollowState.recordTurn]
  simp only [if_pos hlast]
  refine ⟨h.positive, by simp, ?_, ?_, hseen, fun _ => hne (by simp)⟩
  · rintro last hlast
    rw [List.getLast?_concat] at hlast
    rw [Option.some.inj hlast]
  · rw [List.map_append, List.map_singleton]
    exact hsuffix.trans horder

/-- **Delivery.** The turns that come next in the context are all sent. -/
theorem FollowState.Tracks.deliver {st : FollowState} {ds turns : List (ClientTurn τ)}
    (h : st.Tracks ds) (hchain : Chained (ds ++ turns)) :
    (st.deliver turns).1 = turns ∧ (st.deliver turns).2.Tracks (ds ++ turns) := by
  induction turns generalizing st ds with
  | nil => exact ⟨rfl, by rwa [List.append_nil]⟩
  | cons turn turns ih =>
      have hsplit : ds ++ turn :: turns = (ds ++ [turn]) ++ turns := by simp
      rw [hsplit] at hchain ⊢
      have hnodup : ((ds ++ [turn]).map ClientTurn.turnId).Nodup :=
        hchain.nodup.sublist ((List.sublist_append_left _ _).map _)
      have hnew : turn.turnId ∉ st.seen := by
        rw [h.seen, List.mem_toFinset]
        intro hmem
        rw [List.map_append, List.nodup_append] at hnodup
        exact hnodup.2.2 _ (h.order.subset hmem) _ (by simp) rfl
      have hdepth : ∀ last ∈ ds.getLast?, last.depth ≤ turn.depth := by
        intro last hlast
        obtain ⟨ds', rfl⟩ : ∃ ds', ds = ds' ++ [last] := by
          exact List.getLast?_eq_some_iff.mp hlast
        have h₁ := hchain.depth ds'.length last (by simp)
        have h₂ := hchain.depth (ds'.length + 1) turn (by simp)
        rw [UInt32.le_iff_toNat_le]
        omega
      obtain ⟨hsent, htracks⟩ := ih (h.recordTurn hnodup hdepth) hchain
      rw [FollowState.deliver, if_neg hnew]
      exact ⟨congrArg (turn :: ·) hsent, htracks⟩

/-! ### What is missing -/

theorem Chained.headDepth {turns : List (ClientTurn τ)} (h : Chained turns) :
    (Cxdb.headDepth turns).toNat = turns.length - 1 := by
  rw [Cxdb.headDepth]
  cases hlast : turns.getLast? with
  | none => rw [List.getLast?_eq_none_iff.mp hlast]; rfl
  | some turn =>
      rw [List.getLast?_eq_getElem?] at hlast
      exact h.depth _ turn hlast

theorem Chained.of_prefix {turns ds : List (ClientTurn τ)} (h : Chained turns)
    (hds : ds <+: turns) : Chained ds where
  nodup := h.nodup.sublist (hds.sublist.map _)
  depth i turn hi := by
    obtain ⟨hlt, rfl⟩ := List.getElem?_eq_some_iff.mp hi
    exact h.depth i _ (List.prefix_iff_getElem?.mp hds i hlt)
  length := lt_of_le_of_lt hds.length_le h.length

theorem Chained.increasing {turns : List (ClientTurn τ)} (h : Chained turns) :
    (turns.map ClientTurn.depth).Pairwise (· < ·) := by
  rw [List.pairwise_iff_getElem]
  intro i j hi hj hij
  rw [List.length_map] at hi hj
  simp only [List.getElem_map, UInt32.lt_iff_toNat_lt]
  rw [h.depth i _ (List.getElem?_eq_getElem hi), h.depth j _ (List.getElem?_eq_getElem hj)]
  exact hij

/-- **The head does not regress, and the follower asks for what is missing**; for one turn
when the context is empty. -/
theorem FollowState.Tracks.missing {st : FollowState} {ds turns : List (ClientTurn τ)}
    (h : st.Tracks ds) (hchain : Chained turns) (hds : ds <+: turns) (lib : ClientLib) :
    ¬(st.hasLast = true ∧ headDepth turns < st.lastSeenDepth) ∧
      ds.length + (st.missing (headDepth turns) lib).toNat = (headDepth turns).toNat + 1 := by
  have hhead := hchain.headDepth
  have hlength := hchain.length
  rcases List.eq_nil_or_concat ds with rfl | ⟨ds', last, rfl⟩
  · have hlast : st.hasLast = false := by simpa using h.hasLast
    have hsucc : (headDepth turns + 1).toNat = (headDepth turns).toNat + 1 := by
      rw [UInt32.toNat_add, UInt32.toNat_one, Nat.mod_eq_of_lt (by omega)]
    cases lib <;> simp [FollowState.missing, hlast, hsucc]
  · have hlast : st.hasLast = true := h.hasLast.mpr (by simp)
    have hseen : st.seen ≠ ∅ := by
      rw [h.seen, Ne, List.toFinset_eq_empty_iff]
      exact h.recent (by simp)
    have hdepth : st.lastSeenDepth.toNat = ds'.length := by
      rw [h.lastSeen last (by simp)]
      exact (hchain.of_prefix hds).depth ds'.length last (by simp)
    have hle := hds.length_le
    simp only [List.concat_eq_append, List.length_append, List.length_singleton] at hle ⊢
    refine ⟨fun hlt => ?_, ?_⟩
    · have := UInt32.lt_iff_toNat_lt.mp hlt.2
      omega
    · cases lib
      all_goals
        simp only [FollowState.missing, hlast, hseen, ne_eq, not_false_eq_true, and_self, if_true]
        split
      all_goals
        simp only [UInt32.le_iff_toNat_le, UInt32.lt_iff_toNat_lt] at *
      · simp only [UInt32.toNat_zero]; omega
      · rw [UInt32.toNat_sub_of_le _ _ (UInt32.le_iff_toNat_le.mpr (by omega))]; omega
      · rw [UInt32.toNat_sub_of_le _ _ (UInt32.le_iff_toNat_le.mpr (by omega))]; omega
      · simp only [UInt32.toNat_zero]; omega

/-! ### Steps -/

/-- What holds of a follower and a context at all times. While the follower waits for the
answer to `get_last`, its limit reaches from the turns it has sent to the head that it had
read, which is a turn of the context unless the context was empty. -/
structure FollowSystem.Synced (s : FollowSystem τ) (c : UInt64) : Prop where
  chained : Chained (s.contexts c)
  delivered : s.delivered c <+: s.contexts c
  tracks : (s.states c).Tracks (s.delivered c)
  fetching : ∀ depth limit, s.phase = .fetching c depth limit →
    (s.delivered c).length + limit.toNat = depth.toNat + 1 ∧
      (depth.toNat + 1 ≤ (s.contexts c).length ∨ s.delivered c = [])

/-- The context whose last turns are awaited has none below the head that was read. -/
def FollowPhase.Stands (contexts : UInt64 → List (ClientTurn τ)) : FollowPhase → Prop
  | .fetching c depth _ => ∀ turn ∈ contexts c, turn.depth ≤ depth
  | _ => True

/-- Depths do not run out, and when `get_last` is answered the context has no turn below
the head that `get_head` had answered. -/
def FollowSystem.HeadStands (s : FollowSystem τ) : FollowEvent τ → Prop
  | .append c _ => (s.contexts c).length + 1 < 2 ^ 32
  | .gotLast => s.phase.Stands s.contexts
  | _ => True

instance (contexts : UInt64 → List (ClientTurn τ)) :
    ∀ phase, Decidable (FollowPhase.Stands contexts phase)
  | .fetching c depth _ =>
      inferInstanceAs (Decidable (∀ turn ∈ contexts c, turn.depth ≤ depth))
  | .idle | .heading _ => inferInstanceAs (Decidable True)

instance (s : FollowSystem τ) : ∀ e, Decidable (s.HeadStands e)
  | .append c _ => inferInstanceAs (Decidable ((s.contexts c).length + 1 < 2 ^ 32))
  | .gotLast => inferInstanceAs (Decidable (s.phase.Stands s.contexts))
  | .received _ | .gotHead | .failed _ => inferInstanceAs (Decidable True)

/-- **What a step can do.** -/
theorem FollowSystem.exec_cases {lib : ClientLib} {s s' : FollowSystem τ} {e : FollowEvent τ}
    (h : s.exec lib e = some s') :
    (∃ c turn, e = .append c turn ∧ turn.turnId ∉ (s.contexts c).map ClientTurn.turnId ∧
      turn.depth = UInt32.ofNat (s.contexts c).length ∧
      s' = { s with contexts := Function.update s.contexts c (s.contexts c ++ [turn]) }) ∨
    (∃ ev, e = .received ev ∧ s.phase = .idle ∧ ∃ phase errs,
      s' = { s with phase := phase, errs := errs } ∧
        ((phase = .idle ∧ ∀ c, ¬ev.Names c) ∨ ∃ c, ev.Names c ∧ phase = .heading c)) ∨
    (∃ c, e = .gotHead ∧ s.phase = .heading c ∧ s' = s.gotHead lib c) ∨
    (∃ c depth limit, e = .gotLast ∧ s.phase = .fetching c depth limit ∧
      s' = s.gotLast c limit) ∨
    ∃ msg errs, e = .failed msg ∧ s' = { s with phase := .idle, errs := errs } := by
  cases e with
  | append c turn =>
      rw [FollowSystem.exec] at h
      split at h
      next hnew => exact .inl ⟨c, turn, rfl, hnew.1, hnew.2, (Option.some.inj h).symm⟩
      · cases h
  | received ev =>
      rw [FollowSystem.exec] at h
      refine .inr (.inl ⟨ev, rfl, ?_⟩)
      split at h
      next hidle =>
        refine ⟨hidle, ?_⟩
        split at h
        next htype =>
          split at h
          next e he =>
            obtain rfl := Option.some.inj h
            refine ⟨s.phase, _, rfl, .inl ⟨hidle, fun c hc => ?_⟩⟩
            exact absurd (he.symm.trans hc.2) (by simp)
          next c hc =>
            obtain rfl := Option.some.inj h
            exact ⟨_, s.errs, rfl, .inr ⟨c, ⟨htype, hc⟩, rfl⟩⟩
        next htype =>
          obtain rfl := Option.some.inj h
          exact ⟨_, _, rfl, .inl ⟨hidle, fun c hc => htype hc.1⟩⟩
      · cases h
  | gotHead =>
      rw [FollowSystem.exec] at h
      split at h
      next c hphase => exact .inr (.inr (.inl ⟨c, rfl, hphase, (Option.some.inj h).symm⟩))
      · cases h
  | gotLast =>
      rw [FollowSystem.exec] at h
      split at h
      next c depth limit hphase =>
        exact .inr (.inr (.inr (.inl ⟨c, depth, limit, rfl, hphase, (Option.some.inj h).symm⟩)))
      · cases h
  | failed msg =>
      rw [FollowSystem.exec] at h
      refine .inr (.inr (.inr (.inr ⟨msg, s.errs ++ [.client msg], rfl, ?_⟩)))
      split at h
      · cases h
      · exact (Option.some.inj h).symm

/-- A turn at the head of a context, with a new id and the next depth. -/
theorem Chained.append {turns : List (ClientTurn τ)} {turn : ClientTurn τ} (h : Chained turns)
    (hnew : turn.turnId ∉ turns.map ClientTurn.turnId)
    (hdepth : turn.depth = UInt32.ofNat turns.length) (hroom : turns.length + 1 < 2 ^ 32) :
    Chained (turns ++ [turn]) where
  nodup := by
    rw [List.map_append, List.map_singleton]
    exact List.nodup_append.mpr ⟨h.nodup, List.nodup_singleton _, by
      rintro a ha b hb rfl
      exact hnew (List.mem_singleton.mp hb ▸ ha)⟩
  depth i last hi := by
    rcases lt_trichotomy i turns.length with hlt | rfl | hgt
    · rw [List.getElem?_append_left hlt] at hi
      exact h.depth i last hi
    · obtain rfl : turn = last := by simpa using hi
      rw [hdepth, UInt32.toNat_ofNat_of_lt']
      exact h.length
    · rw [List.getElem?_eq_none (by simp; omega)] at hi
      cases hi
  length := by simpa using hroom

namespace FollowSystem

variable {s : FollowSystem τ} {c c' : UInt64} {limit depth : UInt32} {lib : ClientLib}

theorem HeadStands.gotLast (h : s.HeadStands .gotLast)
    (hphase : s.phase = .fetching c depth limit) :
    ∀ turn ∈ s.contexts c, turn.depth ≤ depth := by
  rw [HeadStands, hphase] at h
  exact h

theorem delivered_gotLast (s : FollowSystem τ) (c : UInt64) (limit : UInt32) :
    (s.gotLast c limit).delivered c = s.delivered c ++
      ((s.states c).deliver (lastTurns limit (s.contexts c))).1 := by
  simp [gotLast, delivered, List.filter_map, Function.comp_def]

theorem delivered_gotLast_of_ne (h : c' ≠ c) :
    (s.gotLast c limit).delivered c' = s.delivered c' := by
  simp [gotLast, delivered, List.filter_map, Function.comp_def, h.symm]

/-- When the head has stood still, the answer to `get_last` is what has not been sent. -/
theorem Synced.lastTurns (h : s.Synced c) (hphase : s.phase = .fetching c depth limit)
    (hstands : ∀ turn ∈ s.contexts c, turn.depth ≤ depth) :
    s.delivered c ++ Cxdb.lastTurns limit (s.contexts c) = s.contexts c := by
  obtain ⟨hlimit, hhead⟩ := h.fetching depth limit hphase
  obtain ⟨rest, hrest⟩ := h.delivered
  have hlength : (s.contexts c).length ≤ depth.toNat + 1 := by
    rcases List.eq_nil_or_concat (s.contexts c) with hnil | ⟨turns, turn, hturns⟩
    · simp [hnil]
    · rw [hturns, List.concat_eq_append] at hstands ⊢
      have hturn := h.chained.depth turns.length turn (by simp [hturns])
      have hle := UInt32.le_iff_toNat_le.mp (hstands turn (by simp))
      rw [List.length_append, List.length_singleton]
      omega
  have hstart : (s.contexts c).length - limit.toNat = (s.delivered c).length := by
    rcases hhead with hhead | hnone
    · omega
    · rw [hnone, List.length_nil] at hlimit ⊢
      omega
  rw [Cxdb.lastTurns, hstart, ← hrest, List.drop_left]

/-- **The answer to `get_last` brings the follower up to date.** -/
theorem Synced.gotLast (h : s.Synced c) (hphase : s.phase = .fetching c depth limit)
    (hstands : ∀ turn ∈ s.contexts c, turn.depth ≤ depth) :
    (s.gotLast c limit).delivered c = s.contexts c ∧ (s.gotLast c limit).Synced c := by
  have hall := h.lastTurns hphase hstands
  obtain ⟨hsent, htracks⟩ := h.tracks.deliver (hall ▸ h.chained)
  have hdelivered : (s.gotLast c limit).delivered c = s.contexts c := by
    rw [delivered_gotLast, hsent, hall]
  refine ⟨hdelivered, h.chained, hdelivered ▸ List.prefix_refl _, ?_,
    fun _ _ hp => nomatch hp⟩
  rw [hdelivered]
  rw [hall] at htracks
  simpa [FollowSystem.gotLast] using htracks

/-- The answer to `get_head` is followed by a request, unless everything has been sent. -/
theorem Synced.gotHead (h : s.Synced c) (lib : ClientLib) :
    (s.gotHead lib c).Synced c ∧ ((s.gotHead lib c).delivered c = (s.gotHead lib c).contexts c ∨
      ∃ depth limit, (s.gotHead lib c).phase = .fetching c depth limit) := by
  obtain ⟨hregress, hmissing⟩ := h.tracks.missing h.chained h.delivered lib
  have hhead := h.chained.headDepth
  have hle := h.delivered.length_le
  simp only [FollowSystem.gotHead, if_neg hregress]
  split
  next hzero =>
    rw [hzero, UInt32.toNat_zero] at hmissing
    exact ⟨⟨h.chained, h.delivered, h.tracks, fun _ _ hp => nomatch hp⟩,
      .inl (h.delivered.eq_of_length (by omega))⟩
  · refine ⟨⟨h.chained, h.delivered, h.tracks, ?_⟩, .inr ⟨_, _, rfl⟩⟩
    rintro depth limit hp
    obtain ⟨-, rfl, rfl⟩ := FollowPhase.fetching.inj hp
    refine ⟨hmissing, ?_⟩
    rcases List.eq_nil_or_concat (s.delivered c) with hnil | ⟨ds, turn, hds⟩
    · exact .inr hnil
    · left
      rw [hds, List.concat_eq_append, List.length_append, List.length_singleton] at hle
      change (headDepth (s.contexts c)).toNat + 1 ≤ (s.contexts c).length
      omega

/-- What a step leaves alone: the phase may change, but not to a request for `c`. -/
theorem Synced.of_eq {s' : FollowSystem τ} (h : s.Synced c)
    (hcontexts : s'.contexts c = s.contexts c) (hdelivered : s'.delivered c = s.delivered c)
    (hstates : s'.states c = s.states c)
    (hphase : ∀ depth limit, s'.phase = .fetching c depth limit →
      s.phase = .fetching c depth limit) : s'.Synced c where
  chained := hcontexts ▸ h.chained
  delivered := by
    rw [hcontexts, hdelivered]
    exact h.delivered
  tracks := by
    rw [hstates, hdelivered]
    exact h.tracks
  fetching depth limit hp := by
    rw [hcontexts, hdelivered]
    exact h.fetching depth limit (hphase depth limit hp)

theorem Synced.append {turn : ClientTurn τ} {s' : FollowSystem τ} (h : s.Synced c)
    (hnew : turn.turnId ∉ (s.contexts c).map ClientTurn.turnId)
    (hdepth : turn.depth = UInt32.ofNat (s.contexts c).length)
    (hroom : (s.contexts c).length + 1 < 2 ^ 32)
    (hs' : s' = { s with
      contexts := Function.update s.contexts c (s.contexts c ++ [turn]) }) : s'.Synced c := by
  have hgrown : s'.contexts c = s.contexts c ++ [turn] := by
    rw [hs']
    exact Function.update_self ..
  have hphase : s'.phase = s.phase := by rw [hs']
  have hdelivered : s'.delivered c = s.delivered c := by
    rw [hs']
    rfl
  have hstates : s'.states = s.states := by rw [hs']
  refine ⟨hgrown ▸ h.chained.append hnew hdepth hroom, ?_, ?_, fun depth limit hp => ?_⟩
  · rw [hgrown, hdelivered]
    exact h.delivered.trans (List.prefix_append _ _)
  · rw [hstates, hdelivered]
    exact h.tracks
  · obtain ⟨hlimit, hhead⟩ := h.fetching depth limit (hphase.symm.trans hp)
    rw [hgrown, hdelivered, List.length_append]
    exact ⟨hlimit, hhead.imp_left fun hhead => by omega⟩

/-- **Every step keeps the follower in step**, if the head stands still between its two
requests. -/
theorem Synced.step {s' : FollowSystem τ} {e : FollowEvent τ} (h : ∀ c, s.Synced c)
    (hstands : s.HeadStands e) (hs : s.exec lib e = some s') (c : UInt64) : s'.Synced c := by
  rcases exec_cases hs with ⟨c', turn, rfl, hnew, hdepth, rfl⟩ |
    ⟨ev, rfl, -, phase, errs, rfl, hphase⟩ | ⟨c', rfl, hphase, rfl⟩ |
    ⟨c', depth, limit, rfl, hphase, rfl⟩ | ⟨msg, errs, rfl, rfl⟩
  · by_cases hc : c = c'
    · subst hc
      exact (h c).append hnew hdepth hstands rfl
    · exact (h c).of_eq (Function.update_of_ne hc ..) rfl rfl fun _ _ hp => hp
  · refine (h c).of_eq rfl rfl rfl fun depth limit hp => ?_
    rcases hphase with ⟨rfl, -⟩ | ⟨c', -, rfl⟩ <;> cases hp
  · by_cases hc : c = c'
    · subst hc
      exact ((h c).gotHead lib).1
    · rw [FollowSystem.gotHead]
      split
      · exact (h c).of_eq rfl rfl rfl fun _ _ hp => nomatch hp
      split
      · exact (h c).of_eq rfl rfl rfl fun _ _ hp => nomatch hp
      · refine (h c).of_eq rfl rfl rfl fun _ _ hp => ?_
        exact absurd (FollowPhase.fetching.inj hp).1.symm hc
  · by_cases hc : c = c'
    · subst hc
      exact ((h c).gotLast hphase (HeadStands.gotLast hstands hphase)).2
    · exact (h c).of_eq rfl (delivered_gotLast_of_ne hc) (Function.update_of_ne hc ..)
        fun _ _ hp => nomatch hp
  · exact (h c).of_eq rfl rfl rfl fun _ _ hp => nomatch hp

/-! ### Catching up -/

/-- The follower has sent every turn of the context, or is about to ask for the rest. -/
def CatchesUp (s : FollowSystem τ) (c : UInt64) : Prop :=
  s.delivered c = s.contexts c ∨ s.phase = .heading c ∨
    ∃ depth limit, s.phase = .fetching c depth limit

end FollowSystem

/-- The event appends nothing to the context and fails no request. -/
def FollowEvent.Spares (c : UInt64) : FollowEvent τ → Prop
  | .append c' _ => c' ≠ c
  | .failed _ => False
  | _ => True

namespace FollowSystem

variable {s : FollowSystem τ} {c : UInt64} {lib : ClientLib}

/-- **A follower that catches up goes on doing so** until the context grows or a request
fails. -/
theorem CatchesUp.step {s' : FollowSystem τ} {e : FollowEvent τ} (h : s.CatchesUp c)
    (hsynced : s.Synced c) (hspares : e.Spares c) (hstands : s.HeadStands e)
    (hs : s.exec lib e = some s') : s'.CatchesUp c := by
  rcases exec_cases hs with ⟨c', turn, rfl, hnew, hdepth, rfl⟩ |
    ⟨ev, rfl, hidle, phase, errs, rfl, -⟩ | ⟨c', rfl, hphase, rfl⟩ |
    ⟨c', depth, limit, rfl, hphase, rfl⟩ | ⟨msg, errs, rfl, rfl⟩
  · refine h.imp_left fun hall => hall.trans ?_
    exact (Function.update_of_ne (Ne.symm hspares) ..).symm
  · left
    rcases h with hall | hhead | ⟨depth, limit, hfetch⟩
    · exact hall
    · exact absurd (hidle.symm.trans hhead) (by simp)
    · exact absurd (hidle.symm.trans hfetch) (by simp)
  · by_cases hc : c = c'
    · subst hc
      exact (hsynced.gotHead lib).2.imp_right .inr
    · left
      have hall : s.delivered c = s.contexts c := by
        rcases h with hall | hhead | ⟨depth, limit, hfetch⟩
        · exact hall
        · exact absurd (FollowPhase.heading.inj (hphase.symm.trans hhead)).symm hc
        · exact absurd (hphase.symm.trans hfetch) (by simp)
      rw [FollowSystem.gotHead]
      split
      · exact hall
      · split <;> exact hall
  · by_cases hc : c = c'
    · subst hc
      exact .inl (hsynced.gotLast hphase (HeadStands.gotLast hstands hphase)).1
    · left
      rcases h with hall | hhead | ⟨depth', limit', hfetch⟩
      · exact (delivered_gotLast_of_ne hc).trans hall
      · exact absurd (hphase.symm.trans hhead) (by simp)
      · exact absurd (FollowPhase.fetching.inj (hphase.symm.trans hfetch)).1.symm hc
  · exact hspares.elim

/-- The event that names the context makes the follower ask for its head. -/
theorem catchesUp_of_received {s' : FollowSystem τ} {ev : StreamEvent} (hnames : ev.Names c)
    (hs : s.exec lib (.received ev) = some s') : s'.CatchesUp c := by
  rcases exec_cases hs with ⟨_, _, he, -⟩ | ⟨ev', he, -, phase, errs, rfl, hphase⟩ |
    ⟨_, he, -⟩ | ⟨_, _, _, he, -⟩ | ⟨_, _, he, -⟩
  · cases he
  · obtain rfl := FollowEvent.received.inj he
    rcases hphase with ⟨-, hnone⟩ | ⟨c', hnames', rfl⟩
    · exact absurd hnames (hnone c)
    · obtain rfl := Except.ok.inj (hnames.2.symm.trans hnames'.2)
      exact .inr (.inl rfl)
  · cases he
  · cases he
  · cases he

theorem Synced.initial {contexts : UInt64 → List (ClientTurn τ)} (maxSeen : ℕ)
    (h : Chained (contexts c)) : (FollowSystem.initial contexts maxSeen).Synced c :=
  ⟨h, List.nil_prefix, .new maxSeen, fun _ _ hp => nomatch hp⟩

/-- An event has named the context, and since then the context has not grown and no request
has failed. -/
def Woken (c : UInt64) (es : List (FollowEvent τ)) : Prop :=
  ∃ fs ev gs, es = fs ++ .received ev :: gs ∧ ev.Names c ∧ ∀ e ∈ gs, e.Spares c

theorem Woken.concat {es : List (FollowEvent τ)} {e : FollowEvent τ} (h : Woken c (es ++ [e])) :
    (Woken c es ∧ e.Spares c) ∨ ∃ ev, e = .received ev ∧ ev.Names c := by
  obtain ⟨fs, ev, gs, hsplit, hnames, hspares⟩ := h
  rcases List.eq_nil_or_concat gs with rfl | ⟨gs, last, rfl⟩
  · obtain ⟨-, hlast⟩ := List.append_inj' hsplit rfl
    exact .inr ⟨ev, (List.cons.inj hlast).1, hnames⟩
  · rw [List.concat_eq_append, ← List.cons_append, ← List.append_assoc] at hsplit
    obtain ⟨rfl, hlast⟩ := List.append_inj' hsplit rfl
    obtain rfl := (List.cons.inj hlast).1
    simp only [List.concat_eq_append, List.forall_mem_append, List.forall_mem_singleton]
      at hspares
    exact .inl ⟨⟨fs, ev, gs, rfl, hnames, hspares.1⟩, hspares.2⟩

/-- **In step along a run.** -/
theorem synced_of_run {contexts : UInt64 → List (ClientTurn τ)} {maxSeen : ℕ}
    {es : List (FollowEvent τ)} (hcontexts : ∀ c, Chained (contexts c))
    (h : Run (Guarded HeadStands (Steps (exec lib))) (initial contexts maxSeen) es s) :
    (∀ c, s.Synced c) ∧ ∀ c, Woken c es → s.CatchesUp c := by
  refine h.invariant (I := fun es s => (∀ c, Synced s c) ∧ ∀ c, Woken c es → CatchesUp s c)
    ⟨fun c => .initial maxSeen (hcontexts c), ?_⟩ ?_
  · rintro c ⟨fs, ev, gs, hsplit, -⟩
    exact absurd hsplit (by simp)
  · rintro es s e s' ⟨hsynced, hwoken⟩ ⟨hstands, hs⟩
    refine ⟨Synced.step hsynced hstands hs, fun c hc => ?_⟩
    rcases hc.concat with ⟨hc, hspares⟩ | ⟨ev, rfl, hnames⟩
    · exact (hwoken c hc).step (hsynced c) hspares hstands hs
    · exact catchesUp_of_received hnames hs

end FollowSystem

/-- **What a follower delivers.** In every run in which no context has turns below the head
that `get_head` answered when the `get_last` that follows is answered, each turn is
delivered at most once and in the order of depths, with none left out; and all of them have
been delivered once an event has named the context after its last append and the requests
that it led to have been answered. -/
theorem followTurns_delivers (lib : ClientLib) (maxSeen : ℕ)
    {contexts : UInt64 → List (ClientTurn τ)} (hcontexts : ∀ c, Chained (contexts c))
    {es : List (FollowEvent τ)} {s : FollowSystem τ}
    (h : Run (Guarded FollowSystem.HeadStands (Steps (FollowSystem.exec lib)))
      (.initial contexts maxSeen) es s) (c : UInt64) :
    s.delivered c <+: s.contexts c ∧
      ((s.delivered c).map ClientTurn.turnId).Nodup ∧
      ((s.delivered c).map ClientTurn.depth).Pairwise (· < ·) ∧
      (FollowSystem.Woken c es → s.phase = .idle → s.delivered c = s.contexts c) := by
  obtain ⟨hsynced, hwoken⟩ := FollowSystem.synced_of_run hcontexts h
  have hchained := (hsynced c).chained.of_prefix (hsynced c).delivered
  refine ⟨(hsynced c).delivered, hchained.nodup, hchained.increasing, fun hc hidle => ?_⟩
  rcases hwoken c hc with hall | hhead | ⟨depth, limit, hfetch⟩
  · exact hall
  · exact absurd (hidle.symm.trans hhead) (by simp)
  · exact absurd (hidle.symm.trans hfetch) (by simp)

/-! ### The contexts of the store -/

/-- The turns of a history, in the order in which a client gets them. -/
def clientTurns (view : TurnRecord → ClientTurn τ) (vs : List TurnRecord) :
    List (ClientTurn τ) :=
  (vs.map view).reverse

/-- The depths of a history are its positions. -/
theorem depth_of_isChain {vs : List TurnRecord}
    (hchain : vs.IsChain fun r p => r.depth = p.depth + 1)
    (hlast : ∀ r ∈ vs.getLast?, r.depth = 0) :
    ∀ i r, vs.reverse[i]? = some r → r.depth = UInt32.ofNat i := by
  induction vs with
  | nil => simp
  | cons v vs ih =>
      intro i r hr
      rw [List.reverse_cons] at hr
      cases vs with
      | nil =>
          obtain ⟨hi, rfl⟩ := List.getElem?_eq_some_iff.mp hr
          obtain rfl : i = 0 := by simpa using hi
          exact hlast v rfl
      | cons p vs =>
          obtain ⟨hstep, hrest⟩ := List.isChain_cons_cons.mp hchain
          have ih := ih hrest fun r hr => hlast r (by rwa [List.getLast?_cons_cons])
          rcases lt_or_ge i (p :: vs).reverse.length with hlt | hge
          · rw [List.getElem?_append_left hlt] at hr
            exact ih i r hr
          · obtain ⟨hi, -⟩ := List.getElem?_eq_some_iff.mp hr
            obtain rfl : i = vs.length + 1 := by
              simp only [List.length_append, List.length_reverse, List.length_cons,
                List.length_nil] at hi hge
              omega
            obtain rfl : v = r := by simpa using hr
            rw [hstep, ih vs.length p (by simp), UInt32.ofNat_add]
            rfl

/-- **What the store answers to a follower**, of a context with fewer turns than depths. -/
theorem TurnStore.Linked.answers {s : TurnStore} {c : UInt64} {head : ContextHead}
    {vs : List TurnRecord} (h : s.Linked) (hhead : s.heads.lookup c = some head)
    (hvs : Chain s.forest head.headTurnId vs) (hlength : vs.length < 2 ^ 32)
    {view : TurnRecord → ClientTurn τ} (hid : ∀ r, (view r).turnId = r.turnId)
    (hdepth : ∀ r, (view r).depth = r.depth) :
    Chained (clientTurns view vs) ∧ s.getHead c = .ok head ∧
      headDepth (clientTurns view vs) = head.headDepth ∧
      ∀ limit, (s.getLast c limit).map (List.map view) =
        .ok (lastTurns limit (clientTurns view vs)) := by
  obtain ⟨hdepths, hroot⟩ := h.chain_depths hvs
  refine ⟨⟨?_, ?_, by simpa [clientTurns] using hlength⟩, by rw [TurnStore.getHead, hhead],
    ?_, fun limit => ?_⟩
  · have hids : ClientTurn.turnId ∘ view = TurnRecord.turnId := funext hid
    rw [clientTurns, List.map_reverse, List.nodup_reverse, List.map_map, hids]
    exact (h.chain_turnIds hvs).1.imp fun hlt => ne_of_gt hlt
  · intro i turn hi
    rw [clientTurns, ← List.map_reverse, List.getElem?_map, Option.map_eq_some_iff] at hi
    obtain ⟨r, hr, rfl⟩ := hi
    obtain ⟨hlt, -⟩ := List.getElem?_eq_some_iff.mp hr
    rw [List.length_reverse] at hlt
    rw [hdepth, depth_of_isChain hdepths hroot i r hr, UInt32.toNat_ofNat_of_lt']
    exact lt_trans hlt hlength
  · rw [headDepth, clientTurns, List.getLast?_reverse]
    cases vs with
    | nil =>
        rcases h.head c head hhead with ⟨-, h0⟩ | ⟨r, hr, -⟩
        · exact h0.symm
        · rw [show head.headTurnId = 0 from hvs.eq_root, h.zero] at hr
          cases hr
    | cons v vs =>
        obtain ⟨hne, hget, -⟩ := hvs.cons_inv
        rcases h.head c head hhead with ⟨h0, -⟩ | ⟨r, hr, hd⟩
        · exact absurd h0 hne
        · obtain rfl := Option.some.inj (hget.symm.trans hr)
          exact (hdepth v).trans hd
  · rw [h.getLast_of_chain hhead hvs]
    change Except.ok _ = Except.ok _
    rw [lastTurns, clientTurns, List.length_reverse, List.drop_reverse, List.length_map,
      ← List.map_take, List.map_reverse]
    rcases le_total vs.length limit.toNat with hle | hle
    · rw [Nat.sub_eq_zero_of_le hle, Nat.sub_zero, List.take_of_length_le hle, List.take_length]
    · rw [Nat.sub_sub_self hle]

/-- **An append at the head of a context** makes a turn with a new id and the next depth. -/
theorem TurnStore.Linked.appends {s : TurnStore} {head : ContextHead} {vs : List TurnRecord}
    {a : AppendArgs} {now : UInt64} {w : Entry} {t : TurnRecord × TurnMeta} (h : s.Linked)
    (hhead : s.heads.lookup a.contextId = some head)
    (hvs : Chain s.forest head.headTurnId vs) (hparent : a.parentTurnId = 0)
    (hw : s.entryOf now (.appendTurn a) = .ok w) (ht : w.turn = some t) :
    t.1.parentTurnId = head.headTurnId ∧ t.1.turnId ∉ vs.map TurnRecord.turnId ∧
      t.1.depth = UInt32.ofNat vs.length := by
  obtain ⟨q, hq, rfl⟩ := entryOf_append hw
  obtain rfl := Option.some.inj ht
  have hnew : s.nextTurnId ∉ vs.map TurnRecord.turnId := by
    intro hmem
    obtain ⟨r, hr, hid⟩ := List.mem_map.mp hmem
    have hlt := h.below r.turnId (Finmap.mem_iff.mpr ⟨r, h.stored_of_chain hvs r hr⟩)
    exact absurd hlt (hid ▸ lt_irrefl _)
  suffices hq : q = (head.headTurnId, UInt32.ofNat vs.length) by
    rw [hq]
    exact ⟨rfl, hnew, rfl⟩
  rcases parentOf_ok hq with ⟨hne, -⟩ | ⟨-, head', hhead', hparent⟩
  · exact absurd hparent hne
  obtain rfl := Option.some.inj (hhead.symm.trans hhead')
  cases vs with
  | nil =>
      have hroot : head.headTurnId = 0 := hvs.eq_root
      rcases hparent with ⟨-, rfl⟩ | ⟨hne, -⟩
      · rw [hroot]
        rfl
      · exact absurd hroot hne
  | cons v vs =>
      obtain ⟨hne, hget, -⟩ := hvs.cons_inv
      rcases hparent with ⟨h0, -⟩ | ⟨-, r, hr, rfl⟩
      · exact absurd h0 hne
      · obtain rfl := Option.some.inj (hget.symm.trans hr)
        obtain ⟨hdepths, hroot⟩ := h.chain_depths hvs
        rw [h.turnId _ _ hr, depth_of_isChain hdepths hroot vs.length v (by simp),
          List.length_cons, UInt32.ofNat_add]
        rfl

/-! ### An overtaken head -/

/-- A turn with the given id and depth. -/
def plainTurn (turnId : UInt64) (depth : UInt32) : ClientTurn String :=
  { turnId, parentId := turnId - 1, depth, typeId := "", typeVersion := 1, encoding := 1,
    compression := 0, payloadHash := List.Vector.replicate 32 0, payload := [] }

/-- Two turns are appended, and an event for the second arrives. -/
def followedAppends : List (FollowEvent String) :=
  [.append 1 (plainTurn 1 0), .append 1 (plainTurn 2 1),
    .received ⟨"turn_appended", .turn 1 2⟩, .gotHead, .gotLast]

/-- Contexts without turns. -/
theorem chained_nil : Chained ([] : List (ClientTurn τ)) :=
  ⟨List.nodup_nil, by simp, by simp⟩

/-- `followTurns_delivers` for two turns that are there when the head is read. -/
theorem followTurns_delivers_followedAppends :
    ∃ s, Run (Steps (FollowSystem.exec .rust)) (.initial (fun _ => []) 0) followedAppends s ∧
      s.delivered 1 = [plainTurn 1 0, plainTurn 2 1] := by
  obtain ⟨s, hrun, hidle, hturns⟩ := exists_run_of_foldlM FollowSystem.HeadStands
    (FollowSystem.exec .rust) (.initial (fun _ => []) 0) followedAppends
    (fun s => s.phase = .idle ∧ s.contexts 1 = [plainTurn 1 0, plainTurn 2 1])
    (by decide)
  refine ⟨s, hrun.of_guarded, hturns ▸ ?_⟩
  refine (followTurns_delivers .rust 0 (fun _ => chained_nil) hrun 1).2.2.2 ?_ hidle
  exact ⟨followedAppends.take 2, ⟨"turn_appended", .turn 1 2⟩, [.gotHead, .gotLast], rfl,
    ⟨rfl, rfl⟩, by simp [FollowEvent.Spares]⟩

/-- A turn is appended after the head has been read. -/
def overtakenHead : List (FollowEvent String) :=
  [.append 1 (plainTurn 1 0), .received ⟨"turn_appended", .turn 1 1⟩, .gotHead,
    .append 1 (plainTurn 2 1), .gotLast, .received ⟨"turn_appended", .turn 1 2⟩, .gotHead]

/-- A client that ends this run at rest, with one of the two turns undelivered. -/
def OvertakenHeadLost (lib : ClientLib) : Prop :=
  ∃ s, Run (Steps (FollowSystem.exec lib)) (.initial (fun _ => []) 0) overtakenHead s ∧
    FollowSystem.Woken 1 overtakenHead ∧ s.phase = .idle ∧
    s.contexts 1 = [plainTurn 1 0, plainTurn 2 1] ∧ s.delivered 1 = [plainTurn 2 1]

/-- **An append between the two requests.** The limit that was worked out from the old head
reaches only the new turn, and the old one is never delivered. -/
theorem overtaken_head_lost : OvertakenHeadLost .rust ∧ OvertakenHeadLost .go := by
  have hlost : ∀ lib, OvertakenHeadLost lib := by
    intro lib
    have hwoken : FollowSystem.Woken 1 overtakenHead :=
      ⟨overtakenHead.take 5, ⟨"turn_appended", .turn 1 2⟩, [.gotHead], rfl, ⟨rfl, rfl⟩,
        by simp [FollowEvent.Spares]⟩
    obtain ⟨s, hrun, hidle, hturns, hlost⟩ := exists_run_of_foldlM (fun _ _ => True)
      (FollowSystem.exec lib) (.initial (fun _ => []) 0) overtakenHead
      (fun s => s.phase = .idle ∧ s.contexts 1 = [plainTurn 1 0, plainTurn 2 1] ∧
        s.delivered 1 = [plainTurn 2 1])
      (by cases lib <;> decide)
    exact ⟨s, hrun.of_guarded, hwoken, hidle, hturns, hlost⟩
  exact ⟨hlost .rust, hlost .go⟩

end Cxdb
