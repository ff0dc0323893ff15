import Cxdb.DeliveryOrder

/-!
# Rejected Items

The HTTP client tells an error that a retry can change from one that it cannot, but the worker
takes the text of either and tries the item at its front again. An item that the server rejects
for good stays at the front for as long as the worker runs, and nothing behind it is tried.

## Main results

* `permanent_rejection_blocks`: while the server rejects the item at the front, it stays there
  and nothing is delivered, however often it is tried.
* `rejected_turn_blocks`: a turn that is never delivered, behind one that is rejected.
-/

open Transition
open WorkQueue.Pipeline

namespace Cxdb

/-- The server rejects the item for good. -/
def DeliveryWorker.Rejects (w : DeliveryWorker) (replies : Replies) : QueueItem → Prop
  | .createContext => ∃ message, CxdbHttpClient.createContext replies.create = .error (.permanent message)
  | .append _ =>
      ∃ message, (CxdbHttpClient.appendTurn w.registryReady replies.append).1 = .error (.permanent message)

/-- Whenever the worker attempts this item, the server rejects it for good. -/
def DeliverySystem.Rejecting (item : QueueItem) (s : DeliverySystem) : DeliveryEvent → Prop
  | .reply replies =>
      ∀ entry ∈ s.worker.queue.head?, entry.item = item → s.worker.Rejects replies item
  | _ => True

/-- An attempt of an item that is rejected fails. -/
theorem DeliveryWorker.Rejects.processItem {w : DeliveryWorker} {replies : Replies}
    {item : QueueItem} (h : w.Rejects replies item) :
    ∃ error, (w.processItem replies item).1 = .error error := by
  cases item with
  | createContext =>
      obtain ⟨message, hm⟩ := h
      exact ⟨message, by rw [DeliveryWorker.processItem, hm]; rfl⟩
  | append turn =>
      obtain ⟨message, hm⟩ := h
      rw [DeliveryWorker.processItem]
      cases w.contextId with
      | none => exact ⟨_, rfl⟩
      | some id =>
          rcases ha : CxdbHttpClient.appendTurn w.registryReady replies.append with ⟨_ | _, ready⟩
          · exact ⟨_, rfl⟩
          · rw [ha] at hm
            cases hm

/-- A 4xx reply rejects every item. -/
theorem DeliveryWorker.rejects_repliesWith (w : DeliveryWorker) (item : QueueItem) {code : ℕ}
    (hcode : 400 ≤ code ∧ code < 500) (reason : String) :
    w.Rejects (repliesWith code reason) item := by
  have hreply : ∃ message,
      (replyWith code reason).decoded = .error (.permanent message) := by
    refine ⟨(HttpStatus.mk code reason).display ++ ": ", ?_⟩
    have hok : ¬ code < 300 := by omega
    have hserver : ¬ 500 ≤ code := by omega
    simp [replyWith, HttpReply.decoded, HttpReply.success, HttpStatus.isSuccess, hok,
      classifyStatus, HttpStatus.isServerError, hserver]
  obtain ⟨message, hm⟩ := hreply
  refine match item with
    | .createContext => ⟨message, ?_⟩
    | .append _ => ⟨message, ?_⟩
  · simp [CxdbHttpClient.createContext, repliesWith, hm]
  · cases hready : w.registryReady <;>
      simp [CxdbHttpClient.appendTurn, ensureConversationTypeRegistered, repliesWith, HttpStatus.isSuccess, hm]

namespace DeliverySystem

variable {s s' : DeliverySystem} {entry : QueueEntry} {rest : List QueueEntry}

/-- A step delivers nothing, but for a reply that accepts the item at the front. -/
theorem act_delivered {e : DeliveryEvent} (h : s.act e = some s') :
    s'.delivered = s.delivered ∨ ∃ replies entry rest, e = .reply replies ∧
      s.worker.queue = entry :: rest ∧
      (s.worker.processItem replies entry.item).1 = .ok () := by
  cases e with
  | reply replies =>
      obtain ⟨-, entry, rest, hq, ⟨hok, -⟩ | ⟨e, -, rfl⟩⟩ := reply_cases h
      · exact Or.inr ⟨replies, entry, rest, rfl, hq, hok⟩
      · exact Or.inl rfl
  | capture call | tick duration =>
      obtain rfl := Option.some.inj h
      exact Or.inl rfl
  | send | createContext | shutdown | detach | check | receive | drain | wake =>
      refine Or.inl ?_
      simp only [act] at h
      repeat' split at h
      all_goals cases h
      all_goals rfl

/-- **A step in which the item at the front is rejected** leaves it there. -/
theorem Rejecting.step {e : DeliveryEvent} (hr : s.Rejecting entry.item e)
    (hq : s.worker.queue = entry :: rest) (hs : s.act e = some s') :
    (∃ more, s'.worker.queue = entry :: (rest ++ more)) ∧ s'.delivered = s.delivered := by
  have hdelivered : s'.delivered = s.delivered := by
    rcases act_delivered hs with hsame | ⟨replies, front, rest', rfl, hq', hok⟩
    · exact hsame
    · obtain ⟨rfl, -⟩ := List.cons.inj (hq'.symm.trans hq)
      obtain ⟨error, herror⟩ := (hr front (by simp [hq]) rfl).processItem
      rw [herror] at hok
      cases hok
  obtain ⟨more, hmore⟩ := (act_moves hs).prefix_lined
  simp only [lined, pipeline, hdelivered, hq, List.append_assoc, List.cons_append] at hmore
  exact ⟨⟨more, (List.append_cancel_left hmore).symm⟩, hdelivered⟩

/-- **A run in which the item at the front is rejected** leaves it there. -/
theorem Rejecting.run {es : List DeliveryEvent} (hq : s.worker.queue = entry :: rest)
    (h : Run (Guarded (Rejecting entry.item) (Steps act)) s es s') :
    (∃ more, s'.worker.queue = entry :: (rest ++ more)) ∧ s'.delivered = s.delivered := by
  refine h.invariant (I := fun _ s' => (∃ more, s'.worker.queue = entry :: (rest ++ more)) ∧
    s'.delivered = s.delivered) ⟨⟨[], by rw [hq, List.append_nil]⟩, rfl⟩ ?_
  rintro - s₁ e s₂ ⟨⟨more, hmore⟩, hdelivered⟩ ⟨hr, hs⟩
  obtain ⟨⟨more', hmore'⟩, hdelivered'⟩ := Rejecting.step hr hmore hs
  exact ⟨⟨more ++ more', by rw [hmore', List.append_assoc]⟩, hdelivered'.trans hdelivered⟩

/-! ### Another attempt -/

/-- Nobody has asked the worker to stop, and it has not. -/
structure Running (s : DeliverySystem) : Prop where
  shutdown : s.worker.shutdown = none
  channel : ∀ before, .shutdown before ∉ s.channel
  phase : s.phase ≠ .stopped

/-- How many attempts have been replied to. -/
def attempts (es : List DeliveryEvent) : ℕ :=
  es.countP fun
    | .reply _ => true
    | _ => false

/-- A run of the worker in which the item is rejected. -/
abbrev Rejected (item : QueueItem) (s : DeliverySystem) (es : List DeliveryEvent)
    (s' : DeliverySystem) : Prop :=
  Run (Guarded (Rejecting item) (Steps act)) s es s'

/-- The worker takes what is in the channel and comes to an attempt. -/
theorem exists_attempting_of_draining (item : QueueItem) (h : s.Running)
    (hphase : s.phase = .draining) :
    ∃ es s', Rejected item s es s' ∧ s'.Running ∧ s'.phase = .attempting := by
  obtain ⟨n, hn⟩ : ∃ n, s.channel.length = n := ⟨_, rfl⟩
  induction n generalizing s with
  | zero =>
      have hnil := List.eq_nil_of_length_eq_zero hn
      refine ⟨[.drain], s.enter .attempting, Run.single ⟨trivial, ?_⟩,
        ⟨h.shutdown, h.channel, by rintro ⟨⟩⟩, rfl⟩
      simp [Steps, act, hphase, hnil]
  | succ n ih =>
      obtain ⟨message, rest, hch⟩ := List.exists_cons_of_ne_nil
        (List.ne_nil_of_length_eq_add_one hn)
      have hrunning : (s.take message rest .draining).Running := by
        cases message with
        | enqueue entry =>
            exact ⟨h.shutdown, fun before hm => h.channel before (hch ▸ List.mem_cons_of_mem _ hm),
              by rintro ⟨⟩⟩
        | shutdown before => exact absurd (hch ▸ List.mem_cons_self) (h.channel before)
      obtain ⟨es, s', hrun, hs'⟩ := ih hrunning rfl (by simpa [hch, take] using hn)
      have hdrain : Rejected item s [.drain] (s.take message rest .draining) := by
        refine Run.single ⟨trivial, ?_⟩
        simp [Steps, act, hphase, hch]
      exact ⟨.drain :: es, s', hdrain.append hrun, hs'⟩

/-- From the top of its loop the worker comes to an attempt. -/
theorem exists_attempting_of_top (item : QueueItem) (h : s.Running) (hphase : s.phase = .top)
    (hq : s.worker.queue ≠ []) :
    ∃ es s', Rejected item s es s' ∧ s'.Running ∧ s'.phase = .attempting := by
  obtain ⟨es, s', hrun, hs'⟩ := exists_attempting_of_draining (s := s.enter .draining) item
    ⟨h.shutdown, h.channel, nofun⟩ rfl
  have hcheck : Rejected item s [.check] (s.enter .draining) := by
    refine Run.single ⟨trivial, ?_⟩
    simp [Steps, act, hphase, DeliveryWorker.Finished, h.shutdown, hq]
  exact ⟨.check :: es, s', hcheck.append hrun, hs'⟩

/-- A worker that runs and has an item comes to an attempt. -/
theorem exists_attempting (item : QueueItem) (h : s.Running) (hplaced : s.Placed)
    (hq : s.worker.queue ≠ []) :
    ∃ es s', Rejected item s es s' ∧ s'.Running ∧ s'.phase = .attempting := by
  cases hphase : s.phase with
  | top => exact exists_attempting_of_top item h hphase hq
  | receiving => exact absurd (hplaced.receiving hphase) hq
  | draining => exact exists_attempting_of_draining item h hphase
  | attempting => exact ⟨[], s, .start, h, hphase⟩
  | sleeping wake =>
      let awake : DeliverySystem := { s with now := s.now + wake }
      obtain ⟨es, s', hrun, hs'⟩ := exists_attempting_of_top (s := awake.enter .top) item
        ⟨h.shutdown, h.channel, nofun⟩ rfl hq
      have htick : Rejected item s [.tick wake] awake := Run.single ⟨trivial, rfl⟩
      have hwake : Rejected item awake [.wake] (awake.enter .top) := by
        refine Run.single ⟨trivial, ?_⟩
        simp [Steps, act, awake, hphase]
      exact ⟨.tick wake :: .wake :: es, s', (htick.append hwake).append hrun, hs'⟩
  | stopped => exact absurd hphase h.phase

theorem Placed.run {es : List DeliveryEvent} (h : s.Placed)
    (hrun : Run (Steps act) s es s') : s'.Placed :=
  hrun.invariant (I := fun _ s' => s'.Placed) h fun _ _ _ _ hI hs => hI.step hs

/-- **Another attempt** that the server rejects. -/
theorem exists_rejection (h : s.Running) (hphase : s.phase = .attempting)
    (hq : s.worker.queue = entry :: rest) {code : ℕ} (hcode : 400 ≤ code ∧ code < 500)
    (reason : String) :
    ∃ s', Rejected entry.item s [.reply (repliesWith code reason)] s' ∧ s'.Running := by
  have hrejects := s.worker.rejects_repliesWith entry.item hcode reason
  obtain ⟨error, herror⟩ := hrejects.processItem
  rcases hp : s.worker.processItem (repliesWith code reason) entry.item with ⟨x, w⟩
  rw [hp] at herror
  obtain rfl : x = .error error := herror
  refine ⟨s.retry w error, Run.single ⟨?_, ?_⟩, ?_, h.channel, nofun⟩
  · intro front hfront heq
    exact hrejects
  · simp [Steps, act, hphase, hq, hp]
  · have hw := s.worker.processItem_shutdown (repliesWith code reason) entry.item
    rw [hp] at hw
    simp only [retry, DeliveryWorker.backOff]
    rw [w.enterDegraded_shutdown, hw, h.shutdown]

/-- **The item is tried without end.** -/
theorem exists_attempts (h : s.Running) (hplaced : s.Placed)
    (hq : s.worker.queue = entry :: rest) {code : ℕ} (hcode : 400 ≤ code ∧ code < 500)
    (reason : String) (n : ℕ) :
    ∃ es s', Rejected entry.item s es s' ∧ s'.Running ∧ n ≤ attempts es := by
  induction n with
  | zero => exact ⟨[], s, .start, h, Nat.zero_le _⟩
  | succ n ih =>
      obtain ⟨es, s₁, hrun, hrunning, hn⟩ := ih
      obtain ⟨⟨more, hmore⟩, -⟩ := Rejecting.run hq hrun
      obtain ⟨es₁, s₂, hrun₁, hrunning₁, hphase⟩ := exists_attempting entry.item hrunning
        (hplaced.run hrun.of_guarded) (by simp [hmore])
      obtain ⟨⟨more₁, hmore₁⟩, -⟩ := Rejecting.run hmore hrun₁
      obtain ⟨s₃, hrun₂, hrunning₂⟩ := exists_rejection hrunning₁ hphase hmore₁ hcode reason
      refine ⟨es ++ es₁ ++ [.reply (repliesWith code reason)], s₃,
        (hrun.append hrun₁).append hrun₂, hrunning₂, ?_⟩
      simp only [attempts, List.countP_append, List.countP_singleton, if_true] at hn ⊢
      omega

end DeliverySystem

/-- **A rejected item blocks the queue.** In every reachable state, for as long as the server
rejects the item at the front for good, the item stays there and nothing else is delivered; and
unless somebody asks the worker to stop it tries the item as often as one likes. -/
theorem permanent_rejection_blocks (session : SessionRuntime) (es : List DeliveryEvent)
    (s : DeliverySystem) (h : Run (Steps DeliverySystem.act) (.start session) es s)
    (entry : QueueEntry) (rest : List QueueEntry) (hq : s.worker.queue = entry :: rest) :
    (∀ es' s', Run (Guarded (DeliverySystem.Rejecting entry.item) (Steps DeliverySystem.act)) s
        es' s' → (∃ more, s'.worker.queue = entry :: (rest ++ more)) ∧
          s'.delivered = s.delivered) ∧
      (s.Running → ∀ n, ∃ es' s',
        Run (Guarded (DeliverySystem.Rejecting entry.item) (Steps DeliverySystem.act)) s es' s' ∧
          n ≤ DeliverySystem.attempts es') :=
  ⟨fun _ _ hrun => DeliverySystem.Rejecting.run hq hrun, fun hrunning n =>
    have ⟨es', s', hrun, _, hn⟩ := DeliverySystem.exists_attempts hrunning
      (DeliverySystem.inOrder_of_run h).2 hq (by decide : 400 ≤ 422 ∧ 422 < 500)
      "Unprocessable Entity" n
    ⟨es', s', hrun, hn⟩⟩

/-! ### A turn behind one that is rejected -/

/-- The context is created and two turns are queued; the worker attempts the first. -/
def twoTurns : List DeliveryEvent :=
  [.createContext, .capture (.sessionStart none), .send 0, .capture (.sessionEnd 0 true),
    .send 1, .check, .receive, .check, .drain, .drain, .drain, .reply (repliesWith 200 "OK"),
    .check, .drain]

/-- The state that this leads to. -/
def afterTwoTurns : DeliverySystem :=
  (twoTurns.foldlM DeliverySystem.act (.start freshSession)).getD (.start freshSession)

/-- The entry of a turn that such a run has accepted. -/
def turnEntry (ordinal : UInt64) (exchangeId : String) (body : ItemBody) (ticket : ℕ) :
    QueueEntry where
  item := .append { ordinal, item := { id := turnId "s" ordinal exchangeId, body } }
  ticket := some ticket

def startEntry : QueueEntry := turnEntry 1 "wrapper-session-start" (.sessionStart none) 1

def endEntry : QueueEntry := turnEntry 2 "wrapper-session-end" (.sessionEnd 0 true) 2

theorem run_afterTwoTurns :
    Run (Steps DeliverySystem.act) (.start freshSession) twoTurns afterTwoTurns ∧
      afterTwoTurns.worker.queue = [startEntry, endEntry] := by
  obtain ⟨s, hrun, hs⟩ := exists_run_of_foldlM (fun _ _ => True) DeliverySystem.act
    (.start freshSession) twoTurns (fun s => s = afterTwoTurns) (by decide)
  exact ⟨hs ▸ hrun.of_guarded, by decide⟩

/-- The blocked queue after these turns. -/
theorem permanent_rejection_blocks_afterTwoTurns :
    Run (Steps DeliverySystem.act) (.start freshSession) twoTurns afterTwoTurns ∧
      ∀ es' s', Run (Guarded (DeliverySystem.Rejecting startEntry.item)
          (Steps DeliverySystem.act)) afterTwoTurns es' s' →
        (∃ more, s'.worker.queue = startEntry :: ([endEntry] ++ more)) ∧
          s'.delivered = afterTwoTurns.delivered :=
  ⟨run_afterTwoTurns.1, (permanent_rejection_blocks freshSession twoTurns afterTwoTurns
    run_afterTwoTurns.1 startEntry [endEntry] run_afterTwoTurns.2).1⟩

/-- **A turn behind a rejected one** is never delivered, though the server would accept it. -/
theorem rejected_turn_blocks :
    Run (Steps DeliverySystem.act) (.start freshSession) twoTurns afterTwoTurns ∧
      afterTwoTurns.phase = .attempting ∧
      afterTwoTurns.worker.queue = [startEntry, endEntry] ∧
      afterTwoTurns.worker.Rejects (repliesWith 422 "Unprocessable Entity") startEntry.item ∧
      ∀ es' s', Run (Guarded (DeliverySystem.Rejecting startEntry.item)
          (Steps DeliverySystem.act)) afterTwoTurns es' s' →
        s'.worker.queue.head? = some startEntry ∧ endEntry ∉ s'.delivered := by
  obtain ⟨hrun, hq⟩ := run_afterTwoTurns
  refine ⟨hrun, by decide, hq,
    DeliveryWorker.rejects_repliesWith _ _ (by decide) _, fun es' s' hrun' => ?_⟩
  obtain ⟨⟨more, hmore⟩, hdelivered⟩ := DeliverySystem.Rejecting.run hq hrun'
  rw [hmore, hdelivered]
  exact ⟨rfl, by decide⟩

end Cxdb
