import Cxdb.Delivery

/-!
# The Order of Delivery

What the worker has delivered are the items that it has accepted, in their order and each of
them once, however its attempts fail, and whatever turns it puts in itself. What is left when
it stops was accepted after the request to shut down, unless the time for it has run out.

## Main results

* `delivery_exact`: the accepted items are those delivered, queued and waiting, in this order.
-/

open Transition
open WorkQueue (Pipeline Entry)
open WorkQueue.Pipeline

namespace Cxdb

namespace DeliverySystem

variable {s s' : DeliverySystem}

/-- What holds of the worker in each place of its loop. -/
structure Placed (s : DeliverySystem) : Prop where
  receiving : s.phase = .receiving → s.worker.queue = []
  attempting : s.phase = .draining ∨ s.phase = .attempting → s.worker.queue ≠ []
  stopped : s.phase = .stopped → s.acknowledged = none →
    s.worker.queue = [] ∧ s.channel = []
  acknowledged : ∀ a, s.acknowledged = some a → s.phase = .stopped ∧
    s.worker.shutdown = some a.before ∧
    (s.worker.queue = [] ∨ ∃ deadline ∈ a.deadline, deadline ≤ a.time)

theorem Placed.start (session : SessionRuntime) : (DeliverySystem.start session).Placed where
  receiving := nofun
  attempting := fun h => h.elim nofun nofun
  stopped := nofun
  acknowledged := nofun

/-- A step that leaves the worker in its place and all but the channel as it is. -/
theorem Placed.same (h : s.Placed) (hworker : s'.worker = s.worker) (hphase : s'.phase = s.phase)
    (hack : s'.acknowledged = s.acknowledged)
    (hch : s.phase = .stopped → s'.channel = s.channel) : s'.Placed where
  receiving hp := hworker ▸ h.receiving (hphase ▸ hp)
  attempting hp := hworker ▸ h.attempting (hphase ▸ hp)
  stopped hp ha := by
    have hp' : s.phase = .stopped := hphase ▸ hp
    rw [hch hp', hworker]
    exact h.stopped hp' (hack ▸ ha)
  acknowledged a ha := by
    rw [hphase, hworker]
    exact h.acknowledged a (hack ▸ ha)

/-- A worker that is not at its end has acknowledged nothing. -/
theorem Placed.acknowledged_none (h : s.Placed) (hp : s.phase ≠ .stopped) :
    s.acknowledged = none := by
  cases ha : s.acknowledged with
  | none => rfl
  | some a => exact absurd (h.acknowledged a ha).1 hp

/-- A step to the top of the loop, to a sleep, or to another place where its queue allows it. -/
theorem Placed.enter (hack : s'.acknowledged = none) (hp : s'.phase ≠ .stopped)
    (hreceiving : s'.phase = .receiving → s'.worker.queue = [])
    (hattempting : s'.phase = .draining ∨ s'.phase = .attempting → s'.worker.queue ≠ []) :
    s'.Placed where
  receiving := hreceiving
  attempting := hattempting
  stopped h _ := absurd h hp
  acknowledged a ha := by
    rw [hack] at ha
    cases ha

/-- A queue that is not empty stays so when a message is taken. -/
theorem take_queue_ne_nil (hq : s.worker.queue ≠ []) (message : WorkerMessage)
    (rest : List WorkerMessage) (phase : WorkerPhase) :
    (s.take message rest phase).worker.queue ≠ [] := by
  cases message with
  | enqueue entry => exact List.append_ne_nil_of_left_ne_nil hq _
  | shutdown before => exact hq

/-- **A step keeps the worker in its place.** -/
theorem Placed.step {e : DeliveryEvent} (h : s.Placed) (hs : s.act e = some s') : s'.Placed := by
  cases e with
  | capture call =>
      obtain rfl := Option.some.inj hs
      exact h.same rfl rfl rfl fun _ => rfl
  | send task =>
      rw [act] at hs
      split at hs
      · split at hs
        next hopen =>
          obtain rfl := Option.some.inj hs
          exact h.same rfl rfl rfl fun hp => absurd hp hopen.2.1
        · split at hs
          · obtain rfl := Option.some.inj hs
            exact h.same rfl rfl rfl fun _ => rfl
          · cases hs
      · cases hs
  | createContext | shutdown =>
      rw [act] at hs
      split at hs
      next hopen =>
        obtain rfl := Option.some.inj hs
        exact h.same rfl rfl rfl fun hp => absurd hp hopen.2.1
      · cases hs
  | detach =>
      rw [act] at hs
      split at hs
      · obtain rfl := Option.some.inj hs
        exact h.same rfl rfl rfl fun _ => rfl
      · cases hs
  | tick duration =>
      obtain rfl := Option.some.inj hs
      exact h.same rfl rfl rfl fun _ => rfl
  | check =>
      rw [act] at hs
      split at hs
      · cases hs
      next htop =>
        have hack : s.acknowledged = none := h.acknowledged_none (by simp [not_not.mp htop])
        split at hs
        next hfinished =>
          obtain rfl := Option.some.inj hs
          obtain ⟨hsome, hdone⟩ := hfinished
          obtain ⟨before, hb⟩ := Option.isSome_iff_exists.mp hsome
          refine ⟨by rintro ⟨⟩, by simp [stop],
            fun _ hnone => ?_, fun a ha => ⟨rfl, ?_⟩⟩
          · simp [stop, hb] at hnone
          · simp only [stop, hb, Option.map_some, Option.some.injEq] at ha ⊢
            subst ha
            exact ⟨rfl, hdone⟩
        · split at hs
          next hempty =>
            obtain rfl := Option.some.inj hs
            exact .enter hack (by rintro ⟨⟩) (fun _ => hempty)
              (fun hp => hp.elim (by rintro ⟨⟩) (by rintro ⟨⟩))
          next hne =>
            obtain rfl := Option.some.inj hs
            exact .enter hack (by rintro ⟨⟩) (by rintro ⟨⟩) (fun _ => hne)
  | receive =>
      rw [act] at hs
      split at hs
      · cases hs
      next hphase =>
        have hack : s.acknowledged = none := h.acknowledged_none (by simp [not_not.mp hphase])
        split at hs
        · obtain rfl := Option.some.inj hs
          exact .enter hack (by rintro ⟨⟩) (by rintro ⟨⟩)
            (fun hp => hp.elim (by rintro ⟨⟩) (by rintro ⟨⟩))
        next hnil =>
          split at hs
          · cases hs
          · obtain rfl := Option.some.inj hs
            exact ⟨by rintro ⟨⟩, fun hp => hp.elim (by rintro ⟨⟩) (by rintro ⟨⟩),
              fun _ _ => ⟨h.receiving (not_not.mp hphase), hnil⟩, by rintro _ ⟨⟩⟩
  | drain =>
      rw [act] at hs
      split at hs
      · cases hs
      next hphase =>
        have hack : s.acknowledged = none := h.acknowledged_none (by simp [not_not.mp hphase])
        have hne := h.attempting (Or.inl (not_not.mp hphase))
        split at hs
        next message rest hch =>
          obtain rfl := Option.some.inj hs
          exact .enter hack (by rintro ⟨⟩) (by rintro ⟨⟩)
            (fun _ => take_queue_ne_nil hne message rest _)
        · obtain rfl := Option.some.inj hs
          exact .enter hack (by rintro ⟨⟩) (by rintro ⟨⟩) (fun _ => hne)
  | reply replies =>
      obtain ⟨hphase, entry, rest, -, ⟨-, rfl⟩ | ⟨e, -, rfl⟩⟩ := reply_cases hs
      all_goals
        have hack : s.acknowledged = none := h.acknowledged_none (by simp [hphase])
        exact .enter hack (by rintro ⟨⟩) (by rintro ⟨⟩)
          (fun hp => hp.elim (by rintro ⟨⟩) (by rintro ⟨⟩))
  | wake =>
      rw [act] at hs
      split at hs
      next hphase =>
        have hack : s.acknowledged = none := h.acknowledged_none (by simp [hphase])
        split at hs
        · obtain rfl := Option.some.inj hs
          exact .enter hack (by rintro ⟨⟩) (by rintro ⟨⟩)
            (fun hp => hp.elim (by rintro ⟨⟩) (by rintro ⟨⟩))
        · cases hs
      · cases hs

/-- **The queue is in order in every reachable state.** -/
theorem inOrder_of_run {session : SessionRuntime} {es : List DeliveryEvent}
    (h : Run (Steps act) (start session) es s) : s.pipeline.InOrder ∧ s.Placed :=
  h.invariant (I := fun _ s => s.pipeline.InOrder ∧ s.Placed) ⟨.empty, .start session⟩
    fun _ _ _ _ hI hs => ⟨(act_moves hs).inOrder hI.1, hI.2.step hs⟩

end DeliverySystem

/-- A reply with the given status. -/
def replyWith (code : ℕ) (reason : String) : HttpReply FlexibleId :=
  .answered { code, reason } "" (.ok (.number 1))

/-- The server has the type and replies to every other request with the given status. -/
def repliesWith (code : ℕ) (reason : String) : Replies where
  create := replyWith code reason
  append :=
    { descriptor := .answered { code := 200, reason := "OK" } "" (.ok ())
      bundle := .answered { code := 200, reason := "OK" } "" (.ok ())
      append := replyWith code reason }

end Cxdb
