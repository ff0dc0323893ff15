import Cxdb.DeliveryOrder

/-!
# The Order of Ordinals

A turn takes its ordinal when it is made and is handed over later, so turns of two tasks can
pass each other, and the worker's own turns pass those that wait in the channel. The ordinals
reach the context in order in every run in which this does not happen.

## Main results

* `ordinals_increase`: the ordinals that have been delivered increase, in every run whose turns
  are handed over in order and whose worker speaks when no turn waits.
* `overtaken_turn`: two tasks whose turns arrive in the other order.
-/

open Transition
open WorkQueue.Pipeline

namespace Cxdb

/-- The ordinal of an entry that is a turn. -/
def entryOrdinal (entry : QueueEntry) : Option UInt64 :=
  match entry.item with
  | .createContext => none
  | .append turn => some turn.ordinal

/-- The ordinals of the turns among the entries. -/
def ordinals (entries : List QueueEntry) : List UInt64 := entries.filterMap entryOrdinal

@[simp] theorem ordinals_append (l l' : List QueueEntry) :
    ordinals (l ++ l') = ordinals l ++ ordinals l' := List.filterMap_append

@[simp] theorem ordinals_turn (turn : TurnEnvelope) (ticket : Option ℕ) :
    ordinals [{ item := .append turn, ticket }] = [turn.ordinal] := rfl

/-- The worker makes a turn of its own when an attempt has succeeded, or failed. -/
def DeliveryWorker.speaks (w : DeliveryWorker) : Except String Unit → Bool
  | .ok () => w.degraded && w.queue.length = 1 && !w.recoveryTurnEnqueued
  | .error _ => !w.degraded

namespace DeliverySystem

/-- The ordinals of the turns that are delivered, queued, and waiting, in this order. -/
def ordinals (s : DeliverySystem) : List UInt64 := Cxdb.ordinals s.pipeline.entries

/-- The counter has room for so many turns. -/
def Room (s : DeliverySystem) (turns : ℕ) : Prop :=
  s.session.state.nextTurnOrdinal.toNat + turns < 2 ^ 64

/-- A turn that is handed over comes after all that have been, the worker makes a turn of its
own only when no turn waits in the channel, and the counter does not overflow. -/
def Orderly (s : DeliverySystem) : DeliveryEvent → Prop
  | .capture call => s.Room (s.session.call call).1.length
  | .send task => ∀ turn ∈ s.tasks[task]?.bind List.head?, s.Open →
      ∀ n ∈ s.ordinals, n < turn.ordinal
  | .reply replies => ∀ entry ∈ s.worker.queue.head?,
      s.worker.speaks (s.worker.processItem replies entry.item).1 →
        Cxdb.ordinals (s.channel.filterMap WorkQueue.Message.entry) = [] ∧ s.Room 1
  | _ => True

instance (s : DeliverySystem) (turns : ℕ) : Decidable (s.Room turns) :=
  inferInstanceAs (Decidable (_ < _))

instance (s : DeliverySystem) : DecidablePred s.Orderly := fun
  | .capture call => inferInstanceAs (Decidable (s.Room (s.session.call call).1.length))
  | .send task =>
      have (turn : TurnEnvelope) : Decidable (∀ n ∈ s.ordinals, n < turn.ordinal) :=
        List.decidableBAll _ _
      inferInstanceAs (Decidable (∀ turn ∈ s.tasks[task]?.bind List.head?, s.Open →
        ∀ n ∈ s.ordinals, n < turn.ordinal))
  | .reply replies => inferInstanceAs (Decidable (∀ entry ∈ s.worker.queue.head?,
      s.worker.speaks (s.worker.processItem replies entry.item).1 →
        Cxdb.ordinals (s.channel.filterMap WorkQueue.Message.entry) = [] ∧ s.Room 1))
  | .createContext | .shutdown | .detach | .tick _ | .check | .receive | .drain | .wake =>
      inferInstanceAs (Decidable True)

/-- The ordinals increase, and none has been taken that the counter has not passed. -/
structure Ordered (s : DeliverySystem) : Prop where
  increasing : s.ordinals.Pairwise (· < ·)
  taken : ∀ n ∈ s.ordinals, n ≤ s.session.state.nextTurnOrdinal
  held : ∀ task ∈ s.tasks, ∀ turn ∈ task, turn.ordinal ≤ s.session.state.nextTurnOrdinal

variable {s s' : DeliverySystem}

/-- A step that moves no turn. -/
theorem Ordered.same (h : s.Ordered) (hordinals : s'.ordinals = s.ordinals)
    (hsession : s'.session = s.session)
    (htasks : ∀ task ∈ s'.tasks, ∀ turn ∈ task, ∃ task ∈ s.tasks, turn ∈ task) : s'.Ordered where
  increasing := hordinals ▸ h.increasing
  taken := by
    rw [hordinals, hsession]
    exact h.taken
  held task ht turn hturn := by
    obtain ⟨task', ht', hturn'⟩ := htasks task ht turn hturn
    rw [hsession]
    exact h.held task' ht' turn hturn'

/-- The turns of a task that has handed one over are turns that it had. -/
theorem mem_handOver {task : ℕ} {turns : List TurnEnvelope}
    (h : turns ∈ (s.handOver task).tasks) {turn : TurnEnvelope} (hturn : turn ∈ turns) :
    ∃ turns ∈ s.tasks, turn ∈ turns := by
  obtain ⟨i, hi⟩ := List.mem_iff_getElem?.mp h
  simp only [handOver, List.getElem?_modify] at hi
  obtain ⟨turns', hturns', rfl⟩ := Option.map_eq_some_iff.mp hi
  refine ⟨turns', List.mem_of_getElem? hturns', ?_⟩
  split at hturn
  · exact List.mem_of_mem_tail hturn
  · exact hturn

theorem take_ordinals {message : WorkerMessage} {rest : List WorkerMessage}
    (hch : s.channel = message :: rest) (phase : WorkerPhase) :
    (s.take message rest phase).ordinals = s.ordinals := by
  cases message with
  | enqueue entry =>
      simp [ordinals, entries, lined, pipeline, take, DeliveryWorker.handleMessage,
        DeliveryWorker.pushBack, hch]
  | shutdown before =>
      simp [ordinals, entries, lined, pipeline, take, DeliveryWorker.handleMessage,
        DeliveryWorker.requestShutdown, hch, List.filterMap_cons]

/-- A turn that the worker makes has the next ordinal. -/
theorem turn_ordinal (session : SessionRuntime) (exchangeId : String) (body : ItemBody) :
    (session.turn exchangeId body).1.ordinal = session.state.nextTurnOrdinal + 1 ∧
      (session.turn exchangeId body).2.state.nextTurnOrdinal =
        session.state.nextTurnOrdinal + 1 := ⟨rfl, rfl⟩

theorem turn_ne (session : SessionRuntime) (exchangeId : String) (body : ItemBody) :
    (session.turn exchangeId body).2 ≠ session := by
  intro heq
  have hnext := congrArg (fun s => s.state.nextTurnOrdinal.toNat) heq
  simp only [turn_ordinal, UInt64.toNat_add] at hnext
  have hlt := session.state.nextTurnOrdinal.toNat_lt
  simp at hnext
  omega

theorem lt_succ_of_room (h : s.Room 1) :
    s.session.state.nextTurnOrdinal < s.session.state.nextTurnOrdinal + 1 := by
  rw [Room] at h
  rw [UInt64.lt_iff_toNat_lt, UInt64.toNat_add]
  simp at h ⊢
  omega

/-- **The worker's own turn** comes behind all others when none of them waits. -/
theorem Ordered.speak (h : s.Ordered) {queue : List QueueEntry}
    (hspeaks : Speaks queue s.session s'.worker.queue s'.session)
    (hline : s'.delivered ++ queue = s.delivered ++ s.worker.queue)
    (hch : s'.channel = s.channel) (htasks : s'.tasks = s.tasks)
    (hguard : s'.session ≠ s.session →
      Cxdb.ordinals (s.channel.filterMap WorkQueue.Message.entry) = [] ∧ s.Room 1) :
    s'.Ordered := by
  have hordinals : Cxdb.ordinals (s'.delivered ++ queue) ++
      Cxdb.ordinals (s.channel.filterMap WorkQueue.Message.entry) = s.ordinals := by
    rw [hline]
    simp [ordinals, entries, lined, pipeline]
  generalize hq : s'.worker.queue = queue' at hspeaks
  generalize hs : s'.session = session' at hspeaks
  have hafter : s'.ordinals = Cxdb.ordinals (s'.delivered ++ queue') ++
      Cxdb.ordinals (s.channel.filterMap WorkQueue.Message.entry) := by
    simp [ordinals, entries, lined, pipeline, hq, hch]
  cases hspeaks with
  | silent =>
      refine h.same (hafter.trans hordinals) hs fun task ht turn hturn => ⟨task, ?_, hturn⟩
      exact htasks ▸ ht
  | turn exchangeId body =>
      obtain ⟨hnone, hroom⟩ := hguard (hs ▸ turn_ne s.session exchangeId body)
      have hlt := lt_succ_of_room hroom
      rw [hnone, List.append_nil] at hordinals
      rw [hnone, List.append_nil, ← List.append_assoc, ordinals_append, hordinals,
        ordinals_turn] at hafter
      refine ⟨?_, fun n hn => ?_, fun task ht turn hturn => ?_⟩
      · rw [hafter, List.pairwise_append]
        refine ⟨h.increasing, List.pairwise_singleton _ _, fun n hn m hm => ?_⟩
        rw [List.mem_singleton.mp hm]
        exact UInt64.lt_of_le_of_lt (h.taken n hn) hlt
      · rw [hs]
        rw [hafter] at hn
        rcases List.mem_append.mp hn with hn | hn
        · exact UInt64.le_of_lt (UInt64.lt_of_le_of_lt (h.taken n hn) hlt)
        · rw [List.mem_singleton.mp hn]
          exact UInt64.le_refl _
      · rw [hs]
        exact UInt64.le_of_lt (UInt64.lt_of_le_of_lt (h.held task (htasks ▸ ht) turn hturn) hlt)

/-- A worker that does not speak leaves the session. -/
theorem afterSuccess_session {w : DeliveryWorker} {entry : QueueEntry}
    {rest : List QueueEntry} (hq : w.queue = entry :: rest) (session : SessionRuntime)
    (item : QueueItem) (hne : (w.afterSuccess session item).2 ≠ session) :
    w.speaks (.ok ()) = true := by
  simp only [DeliveryWorker.afterSuccess] at hne
  split at hne
  next h =>
    obtain ⟨hdegraded, hempty, hrecovery⟩ := h
    simp only [DeliveryWorker.popFront, hq, List.tail_cons] at hdegraded hempty hrecovery
    simp [DeliveryWorker.speaks, hdegraded, hq, hempty, hrecovery]
  · split at hne <;> exact absurd rfl hne

theorem enterDegraded_session {w : DeliveryWorker} (session : SessionRuntime) (error : String)
    (hne : (w.enterDegraded session error).2 ≠ session) : w.speaks (.error error) = true := by
  rw [DeliveryWorker.enterDegraded] at hne
  split at hne
  · exact absurd rfl hne
  next h => simpa [DeliveryWorker.speaks] using h

/-- **A step keeps the ordinals in order.** -/
theorem Ordered.step {e : DeliveryEvent} (h : s.Ordered) (hg : s.Orderly e)
    (hs : s.act e = some s') : s'.Ordered := by
  cases e with
  | capture call =>
      obtain rfl := Option.some.inj hs
      obtain ⟨hturns, hnext⟩ := (s.session.call_ordinals call).toNat hg
      have hle : s.session.state.nextTurnOrdinal ≤
          (s.capture call).session.state.nextTurnOrdinal := by
        rw [UInt64.le_iff_toNat_le]
        exact hnext ▸ Nat.le_add_right _ _
      refine ⟨h.increasing, fun n hn => UInt64.le_trans (h.taken n hn) hle, ?_⟩
      intro task ht turn hturn
      rcases List.mem_append.mp ht with ht | ht
      · exact UInt64.le_trans (h.held task ht turn hturn) hle
      · rw [List.mem_singleton.mp ht] at hturn
        have hmem := List.mem_map_of_mem (f := fun turn : TurnEnvelope => turn.ordinal.toNat) hturn
        rw [hturns, List.mem_range'_1] at hmem
        rw [UInt64.le_iff_toNat_le]
        change turn.ordinal.toNat ≤ (s.session.call call).2.state.nextTurnOrdinal.toNat
        omega
  | send task =>
      rw [act] at hs
      split at hs
      next turn rest htask =>
        split at hs
        next hopen =>
          obtain rfl := Option.some.inj hs
          have hguard := hg turn (by simp [htask]) hopen
          have hafter : ((s.handOver task).accept (.append turn)).ordinals =
              s.ordinals ++ [turn.ordinal] := by
            simp [ordinals, entries, lined, pipeline, accept, handOver]
          have hmem := List.mem_of_getElem? htask
          refine ⟨?_, fun n hn => ?_, fun turns ht turn' hturn => ?_⟩
          · rw [hafter, List.pairwise_append]
            refine ⟨h.increasing, List.pairwise_singleton _ _, fun n hn m hm => ?_⟩
            rw [List.mem_singleton.mp hm]
            exact hguard n hn
          · rw [hafter] at hn
            rcases List.mem_append.mp hn with hn | hn
            · exact h.taken n hn
            · rw [List.mem_singleton.mp hn]
              exact h.held _ hmem turn List.mem_cons_self
          · obtain ⟨turns', ht', hturn'⟩ := mem_handOver ht hturn
            exact h.held turns' ht' turn' hturn'
        · split at hs
          · obtain rfl := Option.some.inj hs
            exact h.same rfl rfl fun turns ht turn hturn => mem_handOver ht hturn
          · cases hs
      · cases hs
  | createContext | shutdown =>
      rw [act] at hs
      split at hs
      · obtain rfl := Option.some.inj hs
        refine h.same ?_ rfl fun task ht turn hturn => ⟨task, ht, hturn⟩
        simp [ordinals, entries, lined, pipeline, accept, requestShutdown, Cxdb.ordinals,
          entryOrdinal]
      · cases hs
  | tick duration =>
      obtain rfl := Option.some.inj hs
      exact h.same rfl rfl fun task ht turn hturn => ⟨task, ht, hturn⟩
  | receive | drain =>
      rw [act] at hs
      split at hs
      · cases hs
      · split at hs
        next message rest hch =>
          obtain rfl := Option.some.inj hs
          exact h.same (take_ordinals hch _) rfl fun task ht turn hturn => ⟨task, ht, hturn⟩
        · repeat' split at hs
          all_goals cases hs
          all_goals exact h.same rfl rfl fun task ht turn hturn => ⟨task, ht, hturn⟩
  | detach | check | wake =>
      simp only [act] at hs
      repeat' split at hs
      all_goals cases hs
      all_goals exact h.same rfl rfl fun task ht turn hturn => ⟨task, ht, hturn⟩
  | reply replies =>
      obtain ⟨-, entry, rest, hq, hcase⟩ := reply_cases hs
      obtain ⟨id, ready, hw⟩ := s.worker.processItem_frame replies entry.item
      have hguard := hg entry (by simp [hq])
      rcases hcase with ⟨hok, rfl⟩ | ⟨error, herror, rfl⟩
      · rw [hok] at hguard
        generalize (s.worker.processItem replies entry.item).2 = w at hw ⊢
        have hwq : w.queue = entry :: rest := by rw [hw, ← hq]
        have hspeaks := w.afterSuccess_speaks s.session entry.item
        rw [hwq] at hspeaks
        refine h.speak hspeaks ?_ rfl rfl fun hne => hguard ?_
        · simp [deliver, hq]
        · have hw' := afterSuccess_session hwq s.session entry.item hne
          rwa [hw] at hw'
      · rw [herror] at hguard
        generalize (s.worker.processItem replies entry.item).2 = w at hw ⊢
        have hwq : w.queue = s.worker.queue := by rw [hw]
        have hspeaks := w.enterDegraded_speaks s.session error
        rw [hwq] at hspeaks
        refine h.speak hspeaks rfl rfl rfl fun hne => hguard ?_
        have hw' := enterDegraded_session s.session error hne
        rwa [hw] at hw'

end DeliverySystem

end Cxdb
