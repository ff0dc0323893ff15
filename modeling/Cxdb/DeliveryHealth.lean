import Cxdb.Alternation
import Cxdb.DeliveryOrder

/-!
# The Health of the Delivery

When an attempt fails, the worker is degraded and says so in a turn of its own, behind all that
is queued; when its queue has run empty it says that it has recovered, and is healthy when that
turn is delivered with nothing left behind it. Three flags and the turns in the queue have to be
read together for the two kinds of turn to alternate.

## Main results

* `HealthSound.step`: what holds of the flags and the queued turns is kept by every step.
* `delivery_health`: the two kinds of turn are delivered in turn, and with nothing queued the
  worker is healthy and has delivered as many of the one as of the other.
-/

open Alternation
open Transition
open WorkQueue.Pipeline

namespace Cxdb

/-- What a turn says of the delivery. -/
inductive HealthTurn where
  | degraded
  | recovered
  deriving DecidableEq

/-- What a turn with this body says. -/
def healthOfBody : ItemBody → Option HealthTurn
  | .ingestState title _ _ _ =>
      if title = "ingest_degraded" then some .degraded
      else if title = "ingest_recovered" then some .recovered
      else none
  | _ => none

/-- What an entry says of the delivery. -/
def healthTurn (entry : QueueEntry) : Option HealthTurn :=
  match entry.item with
  | .createContext => none
  | .append turn => healthOfBody turn.item.body

/-- The context is created first, and only once. -/
def CreatedFirst (accepted : List QueueItem) : Prop :=
  accepted = [] ∨ ∃ rest, accepted = .createContext :: rest ∧ .createContext ∉ rest

/-- The beginning of such a list is one. -/
theorem CreatedFirst.of_append {accepted more : List QueueItem}
    (h : CreatedFirst (accepted ++ more)) : CreatedFirst accepted := by
  cases accepted with
  | nil => exact Or.inl rfl
  | cons item rest =>
      obtain h | ⟨rest', heq, hrest⟩ := h
      · cases h
      · obtain ⟨rfl, rfl⟩ := List.cons.inj heq
        exact Or.inr ⟨rest, rfl, fun hmem => hrest (List.mem_append_left _ hmem)⟩

/-- Another creation is accepted only in front of everything. -/
theorem CreatedFirst.eq_nil {accepted : List QueueItem}
    (h : CreatedFirst (accepted ++ [.createContext])) : accepted = [] := by
  cases accepted with
  | nil => rfl
  | cons item rest =>
      obtain h | ⟨rest', heq, hrest⟩ := h
      · cases h
      · obtain ⟨-, rfl⟩ := List.cons.inj heq
        exact absurd (List.mem_append_right _ (List.mem_singleton_self _)) hrest

/-! ### The turns of a session -/

/-- No call of the proxy or of the wrapper says anything of the delivery. -/
theorem SessionRuntime.call_health (session : SessionRuntime) (c : SessionCall) :
    ∀ turn ∈ (session.call c).1, healthOfBody turn.item.body = none := by
  have hhistory (sessionId exchangeId : String) (items : List HistoryItem) (state : MutableState) :
      ∀ turn ∈ (historyTurns sessionId exchangeId items state).1,
        healthOfBody turn.item.body = none := by
    induction items generalizing state with
    | nil => exact List.forall_mem_nil _
    | cons item rest ih => exact List.forall_mem_cons.mpr ⟨rfl, ih _⟩
  cases c with
  | sessionStart | sessionEnd | appendHistoryItem | providerError =>
      exact List.forall_mem_singleton.mpr rfl
  | observeRequestHistory exchangeId history artifacts =>
      simp only [SessionRuntime.call, SessionRuntime.observeRequestHistory]
      split
      · rw [List.singleton_append]
        exact List.forall_mem_cons.mpr ⟨rfl, hhistory _ _ _ _⟩
      · exact hhistory _ _ _ _

/-! ### What holds of a worker -/

namespace DeliverySystem

variable {s s' : DeliverySystem}

/-- What is finished or queued, or waits in the channel. -/
abbrev line (s : DeliverySystem) : List QueueEntry := s.pipeline.entries

/-- What the finished and the queued entries say of the delivery. -/
def healthTurns (s : DeliverySystem) : List HealthTurn := s.pipeline.lined.filterMap healthTurn

/-- **The flags and the turns that are delivered or queued.** -/
structure HealthSound (s : DeliverySystem) : Prop where
  tasks : ∀ turns ∈ s.tasks, ∀ turn ∈ turns, healthOfBody turn.item.body = none
  channel : ∀ entry ∈ s.channel.filterMap WorkQueue.Message.entry, healthTurn entry = none
  alternates : Alternates .degraded .recovered s.healthTurns
  /-- The last of them says that the delivery is degraded until a recovery is queued. -/
  open_iff : s.healthTurns.length % 2 = 1 ↔
    s.worker.degraded = true ∧ s.worker.recoveryTurnEnqueued = false
  queued : s.worker.degraded = true → s.worker.queue ≠ []
  recovering : s.worker.recoveryTurnEnqueued = true →
    s.worker.degraded = true ∧ s.delivered ≠ []
  empty : s.accepted = [] → s.line = []
  created : ∀ entry ∈ s.line.tail, entry.item ≠ .createContext

theorem HealthSound.start (session : SessionRuntime) :
    (DeliverySystem.start session).HealthSound where
  tasks := by rintro _ ⟨⟩
  channel := by rintro _ ⟨⟩
  alternates := trivial
  open_iff := ⟨by rintro ⟨⟩, by rintro ⟨⟨⟩, -⟩⟩
  queued := by rintro ⟨⟩
  recovering := by rintro ⟨⟩
  empty _ := rfl
  created := by rintro _ ⟨⟩

/-- A step that leaves the flags, the line and what is accepted. -/
theorem HealthSound.idle (h : s.HealthSound)
    (htasks : ∀ turns ∈ s'.tasks, ∀ turn ∈ turns, healthOfBody turn.item.body = none)
    (hchannel : s'.channel.filterMap WorkQueue.Message.entry =
      s.channel.filterMap WorkQueue.Message.entry)
    (hqueue : s'.worker.queue = s.worker.queue) (hdelivered : s'.delivered = s.delivered)
    (hdegraded : s'.worker.degraded = s.worker.degraded)
    (hrecovery : s'.worker.recoveryTurnEnqueued = s.worker.recoveryTurnEnqueued)
    (haccepted : s'.accepted = s.accepted) : s'.HealthSound := by
  have hturns : s'.healthTurns = s.healthTurns := by
    simp only [healthTurns, lined, pipeline, hqueue, hdelivered]
  have hline : s'.line = s.line := by
    simp only [line, entries, lined, pipeline, hqueue, hdelivered, hchannel]
  refine ⟨htasks, ?_, ?_, ?_, ?_, ?_, ?_, ?_⟩
  · rw [hchannel]
    exact h.channel
  · rw [hturns]
    exact h.alternates
  · rw [hturns, hdegraded, hrecovery]
    exact h.open_iff
  · rw [hdegraded, hqueue]
    exact h.queued
  · rw [hrecovery, hdegraded, hdelivered]
    exact h.recovering
  · rw [haccepted, hline]
    exact h.empty
  · rw [hline]
    exact h.created

/-- The tail of a list that is extended behind its first element. -/
theorem mem_tail_append {l l' : List QueueEntry} {e : QueueEntry} (h : e ∈ (l ++ l').tail) :
    e ∈ l.tail ∨ e ∈ l' := by
  cases l with
  | nil => exact Or.inr (List.mem_of_mem_tail h)
  | cons x l => exact List.mem_append.mp h

/-- An accepted item says nothing, and creates the context only if it is the first. -/
theorem HealthSound.accept (h : s.HealthSound) {item : QueueItem}
    (hitem : healthTurn ⟨item, some s.accepted.length⟩ = none)
    (hcreated : item = .createContext → s.accepted = []) : (s.accept item).HealthSound := by
  have hentries : (s.accept item).channel.filterMap WorkQueue.Message.entry =
      s.channel.filterMap WorkQueue.Message.entry ++ [⟨item, some s.accepted.length⟩] := by
    simp [DeliverySystem.accept]
  have hline : (s.accept item).line = s.line ++ [⟨item, some s.accepted.length⟩] := by
    simp only [line, entries, pipeline, hentries, ← List.append_assoc]
    rfl
  refine ⟨h.tasks, ?_, h.alternates, h.open_iff, h.queued, h.recovering, ?_, ?_⟩
  · rw [hentries]
    intro entry hentry
    rcases List.mem_append.mp hentry with hentry | hentry
    · exact h.channel entry hentry
    · rw [List.mem_singleton.mp hentry, hitem]
  · intro hnil
    exact absurd hnil (List.append_ne_nil_of_right_ne_nil _ (List.cons_ne_nil _ _))
  · intro entry hentry
    rw [hline] at hentry
    by_cases hfirst : item = .createContext
    · rw [h.empty (hcreated hfirst)] at hentry
      cases hentry
    · rcases mem_tail_append hentry with hentry | hentry
      · exact h.created entry hentry
      · rwa [List.mem_singleton.mp hentry]

/-- A message that is taken moves on in the line. -/
theorem HealthSound.take (h : s.HealthSound) {message : WorkerMessage}
    {rest : List WorkerMessage} (hch : s.channel = message :: rest) (phase : WorkerPhase) :
    (s.take message rest phase).HealthSound := by
  cases message with
  | shutdown before =>
      exact h.idle h.tasks (by rw [hch]; rfl) rfl rfl rfl rfl rfl
  | enqueue entry =>
      have hentries : s.channel.filterMap WorkQueue.Message.entry =
          entry :: rest.filterMap WorkQueue.Message.entry := by rw [hch]; rfl
      have hentry : healthTurn entry = none := h.channel entry (hentries ▸ List.mem_cons_self)
      have hturns : (s.take (.enqueue entry) rest phase).healthTurns = s.healthTurns := by
        simp [healthTurns, lined, pipeline, DeliverySystem.take, DeliveryWorker.handleMessage,
          DeliveryWorker.pushBack, hentry]
      have hline : (s.take (.enqueue entry) rest phase).line = s.line := by
        simp [line, entries, lined, pipeline, DeliverySystem.take, DeliveryWorker.handleMessage,
          DeliveryWorker.pushBack, hentries]
      refine ⟨h.tasks, ?_, ?_, ?_, ?_, h.recovering, ?_, ?_⟩
      · exact fun e he => h.channel e (hentries ▸ List.mem_cons_of_mem _ he)
      · rw [hturns]
        exact h.alternates
      · rw [hturns]
        exact h.open_iff
      · exact fun _ => List.append_ne_nil_of_right_ne_nil _ (List.cons_ne_nil _ _)
      · rw [hline]
        exact h.empty
      · rw [hline]
        exact h.created

/-- What an entry behind the end of the line changes: a turn of the worker's own. -/
theorem HealthSound.line_concat (h : s.HealthSound) {turn : TurnEnvelope} {own : HealthTurn}
    (hown : healthOfBody turn.item.body = some own) (hne : s.pipeline.lined ≠ [])
    (hlined : s'.pipeline.lined = s.pipeline.lined ++ [⟨.append turn, none⟩])
    (hchannel : s'.channel = s.channel) (haccepted : s'.accepted = s.accepted) :
    s'.healthTurns = s.healthTurns ++ [own] ∧ (s'.accepted = [] → s'.line = []) ∧
      ∀ entry ∈ s'.line.tail, entry.item ≠ .createContext := by
  refine ⟨?_, fun hnil => ?_, fun entry hentry => ?_⟩
  · simp [healthTurns, hlined, healthTurn, hown]
  · have hempty : s.line = [] := h.empty (haccepted ▸ hnil)
    exact absurd (List.append_eq_nil_iff.mp hempty).1 hne
  · have hline : s'.line = s.pipeline.lined ++ ([⟨.append turn, none⟩] ++
        s.channel.filterMap WorkQueue.Message.entry) := by
      rw [line, entries, hlined, List.append_assoc]
      exact congrArg (fun c => _ ++ (_ ++ List.filterMap WorkQueue.Message.entry c)) hchannel
    obtain ⟨first, others, hfirst⟩ := List.exists_cons_of_ne_nil hne
    have hsplit : s.line.tail = others ++ s.channel.filterMap WorkQueue.Message.entry := by
      rw [line, entries, hfirst]
      rfl
    rw [hline, hfirst] at hentry
    rcases List.mem_append.mp hentry with hentry | hentry
    · exact h.created entry (hsplit ▸ List.mem_append_left _ hentry)
    rcases List.mem_cons.mp hentry with rfl | hentry
    · exact QueueItem.noConfusion
    · exact h.created entry (hsplit ▸ List.mem_append_right _ hentry)

/-! ### Attempts -/

variable {w : DeliveryWorker}

/-- What the worker does behind a delivery. -/
theorem afterSuccess_cases (w : DeliveryWorker) (session : SessionRuntime) (item : QueueItem) :
    (w.degraded = true ∧ w.queue.tail = [] ∧ w.recoveryTurnEnqueued = false ∧
      ∃ turn : TurnEnvelope, healthOfBody turn.item.body = some .recovered ∧
        (w.afterSuccess session item).1 = w.popFront.recovering.pushOwn turn) ∨
    (w.recoveryTurnEnqueued = true ∧ (w.afterSuccess session item).1 = w.popFront.recovered) ∨
    ((w.degraded = true → w.queue.tail = [] →
      w.recoveryTurnEnqueued = true ∧ item = .createContext) ∧
      (w.afterSuccess session item).1 = w.popFront) := by
  rw [DeliveryWorker.afterSuccess]
  by_cases hrecover : w.popFront.degraded ∧ w.popFront.queue = [] ∧
      ¬ w.popFront.recoveryTurnEnqueued
  · rw [if_pos hrecover]
    obtain ⟨hdegraded, hempty, hrecovery⟩ := hrecover
    exact Or.inl ⟨hdegraded, hempty, Bool.eq_false_iff.mpr hrecovery,
      (session.ingestRecoveredTurn 0).1, rfl, rfl⟩
  rw [if_neg hrecover]
  refine Or.inr ?_
  by_cases hdone : w.popFront.degraded ∧ w.popFront.recoveryTurnEnqueued ∧
      item ≠ .createContext ∧ w.popFront.queue = []
  · rw [if_pos hdone]
    exact Or.inl ⟨hdone.2.1, rfl⟩
  · rw [if_neg hdone]
    refine Or.inr ⟨fun hdegraded hempty => ?_, rfl⟩
    have hrecovery : w.recoveryTurnEnqueued = true :=
      by_contra fun hno => hrecover ⟨hdegraded, hempty, hno⟩
    exact ⟨hrecovery, by_contra fun hno => hdone ⟨hdegraded, hrecovery, hno, hempty⟩⟩

/-- What the worker does behind a failure. -/
theorem enterDegraded_cases (w : DeliveryWorker) (session : SessionRuntime) (error : String) :
    (w.degraded = true ∧ (w.enterDegraded session error).1 = w) ∨
    (w.degraded = false ∧ ∃ turn : TurnEnvelope,
      healthOfBody turn.item.body = some .degraded ∧
        (w.enterDegraded session error).1 = w.degrade.pushOwn turn) := by
  cases hdegraded : w.degraded with
  | true => exact Or.inl ⟨rfl, by rw [DeliveryWorker.enterDegraded, if_pos hdegraded]⟩
  | false =>
      refine Or.inr ⟨rfl, (session.ingestDegradedTurn w.queue.length error).1, rfl, ?_⟩
      rw [DeliveryWorker.enterDegraded, if_neg (by rw [hdegraded]; exact Bool.false_ne_true)]

/-- The last turn says that the delivery is degraded, or it does not. -/
theorem HealthSound.even_of_not (h : s.HealthSound)
    (hno : ¬ (s.worker.degraded = true ∧ s.worker.recoveryTurnEnqueued = false)) :
    s.healthTurns.length % 2 = 0 :=
  (Nat.mod_two_eq_zero_or_one _).resolve_right fun hodd => hno (h.open_iff.mp hodd)

/-- **A failed attempt**: the worker says so unless it has said so before. -/
theorem HealthSound.retry (h : s.HealthSound) (hqueue : w.queue = s.worker.queue)
    (hdegraded : w.degraded = s.worker.degraded)
    (hrecovery : w.recoveryTurnEnqueued = s.worker.recoveryTurnEnqueued)
    (hne : s.worker.queue ≠ []) (error : String) : (s.retry w error).HealthSound := by
  have hbackOff : (s.retry w error).worker = (w.enterDegraded s.session error).1.backOff := rfl
  rcases enterDegraded_cases w s.session error with ⟨-, hworker⟩ | ⟨hhealthy, turn, hturn, hworker⟩
  · rw [hworker] at hbackOff
    exact h.idle h.tasks rfl (by rw [hbackOff]; exact hqueue) rfl
      (by rw [hbackOff]; exact hdegraded) (by rw [hbackOff]; exact hrecovery) rfl
  · rw [hworker] at hbackOff
    have hlined : (s.retry w error).pipeline.lined =
        s.pipeline.lined ++ [⟨.append turn, none⟩] := by
      have hqueue' : (s.retry w error).worker.queue =
          s.worker.queue ++ [⟨.append turn, none⟩] := by
        rw [hbackOff, ← hqueue]
        rfl
      simp only [lined, pipeline, hqueue', List.append_assoc]
      rfl
    obtain ⟨hturns, hempty, hcreated⟩ := h.line_concat hturn
      (List.append_ne_nil_of_right_ne_nil _ hne) hlined rfl rfl
    have heven := h.even_of_not fun hno => Bool.false_ne_true
      (hhealthy.symm.trans (hdegraded.trans hno.1))
    refine ⟨h.tasks, h.channel, ?_, ?_, ?_, ?_, hempty, hcreated⟩
    · rw [hturns, alternates_concat_iff, inTurn, if_pos heven]
      exact ⟨h.alternates, rfl⟩
    · rw [hturns, hbackOff, List.length_append, List.length_singleton]
      exact ⟨fun _ => ⟨rfl, rfl⟩, fun _ => by omega⟩
    · rw [hbackOff]
      exact fun _ => List.append_ne_nil_of_right_ne_nil _ (List.cons_ne_nil _ _)
    · rw [hbackOff]
      rintro ⟨⟩

/-- **A delivery**: with nothing left, the worker says that it has recovered, or it has. -/
theorem HealthSound.deliver (h : s.HealthSound) {entry : QueueEntry} {rest : List QueueEntry}
    (hq : s.worker.queue = entry :: rest) (hqueue : w.queue = s.worker.queue)
    (hdegraded : w.degraded = s.worker.degraded)
    (hrecovery : w.recoveryTurnEnqueued = s.worker.recoveryTurnEnqueued) :
    (s.deliver entry w).HealthSound := by
  have hpopped : s.delivered ++ [entry] ++ rest = s.pipeline.lined := by simp [lined, pipeline, hq]
  have htail : w.queue.tail = rest := by rw [hqueue, hq]; rfl
  have hdelivered : (s.deliver entry w).delivered = s.delivered ++ [entry] := rfl
  have hworker : (s.deliver entry w).worker = (w.afterSuccess s.session entry.item).1 := rfl
  have hdone : s.delivered ++ [entry] ≠ [] :=
    List.append_ne_nil_of_right_ne_nil _ (List.cons_ne_nil _ _)
  -- Without a turn of its own the worker leaves the line as it is.
  have hsilent (hrest : (s.deliver entry w).worker.queue = rest) :
      (s.deliver entry w).healthTurns = s.healthTurns ∧ (s.deliver entry w).line = s.line := by
    have hlined : (s.deliver entry w).pipeline.lined = s.pipeline.lined := by
      rw [← hpopped, ← hrest]
      rfl
    exact ⟨by rw [healthTurns, hlined]; rfl, by rw [line, entries, hlined]; rfl⟩
  rcases afterSuccess_cases w s.session entry.item with
    ⟨hdeg, hempty, hrec, turn, hturn, hafter⟩ | ⟨hrec, hafter⟩ | ⟨hstill, hafter⟩ <;>
    rw [hafter] at hworker
  · obtain rfl : rest = [] := htail.symm.trans hempty
    have hlined : (s.deliver entry w).pipeline.lined =
        s.pipeline.lined ++ [⟨.append turn, none⟩] := by
      have hqueue' : (s.deliver entry w).worker.queue = [⟨.append turn, none⟩] := by
        rw [hworker]
        exact congrArg (· ++ [_]) htail
      rw [← hpopped, List.append_nil, ← hqueue']
      rfl
    obtain ⟨hturns, hempty, hcreated⟩ :=
      h.line_concat hturn (hpopped ▸ by simp) hlined rfl rfl
    have hodd : s.healthTurns.length % 2 = 1 :=
      h.open_iff.mpr ⟨hdegraded ▸ hdeg, hrecovery ▸ hrec⟩
    refine ⟨h.tasks, h.channel, ?_, ?_, ?_, ?_, hempty, hcreated⟩
    · rw [hturns, alternates_concat_iff, inTurn, if_neg (by omega)]
      exact ⟨h.alternates, rfl⟩
    · rw [hturns, hworker, List.length_append, List.length_singleton]
      refine ⟨fun _ => by omega, ?_⟩
      rintro ⟨-, ⟨⟩⟩
    · rw [hworker]
      exact fun _ => List.append_ne_nil_of_right_ne_nil _ (List.cons_ne_nil _ _)
    · rw [hworker]
      exact fun _ => ⟨hdeg, hdone⟩
  · obtain ⟨hturns, hline⟩ := hsilent (by rw [hworker]; exact htail)
    have heven := h.even_of_not fun hno => Bool.false_ne_true
      (hno.2.symm.trans (hrecovery.symm.trans hrec))
    refine ⟨h.tasks, h.channel, ?_, ?_, ?_, ?_, hline ▸ h.empty, hline ▸ h.created⟩
    · exact hturns ▸ h.alternates
    · rw [hturns, hworker]
      refine ⟨fun hodd => by omega, ?_⟩
      rintro ⟨⟨⟩, -⟩
    · rw [hworker]
      rintro ⟨⟩
    · rw [hworker]
      rintro ⟨⟩
  · obtain ⟨hturns, hline⟩ := hsilent (by rw [hworker]; exact htail)
    refine ⟨h.tasks, h.channel, ?_, ?_, ?_, ?_, hline ▸ h.empty, hline ▸ h.created⟩
    · exact hturns ▸ h.alternates
    · rw [hturns, hworker]
      exact h.open_iff.trans (by rw [← hdegraded, ← hrecovery]; rfl)
    · rw [hworker]
      intro hdeg hempty
      -- The recovery would be behind a creation that is not the first.
      obtain ⟨hrec, hcreate⟩ := hstill hdeg hempty
      obtain ⟨first, others, hfirst⟩ :=
        List.exists_cons_of_ne_nil (h.recovering (hrecovery ▸ hrec)).2
      refine h.created entry ?_ hcreate
      have hline : s.line = s.pipeline.lined ++ s.channel.filterMap WorkQueue.Message.entry := rfl
      rw [hline, ← hpopped, hfirst]
      simp
    · rw [hworker]
      exact fun hrec => ⟨hdegraded ▸ (h.recovering (hrecovery ▸ hrec)).1, hdone⟩

/-! ### Runs -/

/-- A step accepts nothing, or one item. -/
theorem act_accepted {e : DeliveryEvent} (hs : s.act e = some s') :
    ∃ more, s'.accepted = s.accepted ++ more := by
  have hsame : s'.accepted = s.accepted → ∃ more, s'.accepted = s.accepted ++ more :=
    fun heq => ⟨[], by rw [heq, List.append_nil]⟩
  cases e with
  | reply replies =>
      obtain ⟨-, entry, rest, -, ⟨-, rfl⟩ | ⟨e, -, rfl⟩⟩ := reply_cases hs
      · exact hsame rfl
      · exact hsame rfl
  | capture call | tick duration =>
      obtain rfl := Option.some.inj hs
      exact hsame rfl
  | send task =>
      simp only [act] at hs
      repeat' split at hs
      all_goals cases hs
      · exact ⟨_, rfl⟩
      · exact hsame rfl
  | createContext =>
      rw [act] at hs
      split at hs
      · cases hs
        exact ⟨_, rfl⟩
      · cases hs
  | shutdown | detach | check | receive | drain | wake =>
      simp only [act] at hs
      repeat' split at hs
      all_goals cases hs
      all_goals exact hsame rfl

/-- A task without its next turn. -/
theorem HealthSound.handOver (h : s.HealthSound) (task : ℕ) : (s.handOver task).HealthSound := by
  refine h.idle (fun turns hturns => ?_) rfl rfl rfl rfl rfl rfl
  obtain ⟨i, hi, rfl⟩ := List.mem_iff_getElem.mp hturns
  simp only [DeliverySystem.handOver, List.getElem_modify]
  rw [DeliverySystem.handOver, List.length_modify] at hi
  have hmem := h.tasks s.tasks[i] (List.getElem_mem hi)
  split
  · exact fun turn hturn => hmem turn (List.mem_of_mem_tail hturn)
  · exact hmem

/-- **A step keeps the health**, as long as the context is created first. -/
theorem HealthSound.step {e : DeliveryEvent} (h : s.HealthSound)
    (hs : s.act e = some s') (hfirst : CreatedFirst s'.accepted) : s'.HealthSound := by
  cases e with
  | capture call =>
      obtain rfl := Option.some.inj hs
      refine h.idle (fun turns hturns => ?_) rfl rfl rfl rfl rfl rfl
      rcases List.mem_append.mp hturns with hturns | hturns
      · exact h.tasks turns hturns
      · rw [List.mem_singleton.mp hturns]
        exact s.session.call_health call
  | send task =>
      rw [act] at hs
      split at hs
      next turn rest htask =>
        have hturn := h.tasks _ (List.mem_of_getElem? htask) turn List.mem_cons_self
        split at hs
        · obtain rfl := Option.some.inj hs
          exact (h.handOver task).accept hturn (by rintro ⟨⟩)
        · split at hs
          · obtain rfl := Option.some.inj hs
            exact h.handOver task
          · cases hs
      · cases hs
  | createContext =>
      rw [act] at hs
      split at hs
      · obtain rfl := Option.some.inj hs
        exact h.accept rfl fun _ => hfirst.eq_nil
      · cases hs
  | shutdown =>
      rw [act] at hs
      split at hs
      · obtain rfl := Option.some.inj hs
        exact h.idle h.tasks (by simp [requestShutdown]) rfl rfl rfl rfl rfl
      · cases hs
  | tick duration =>
      obtain rfl := Option.some.inj hs
      exact h.idle h.tasks rfl rfl rfl rfl rfl rfl
  | detach | check | wake =>
      simp only [act] at hs
      repeat' split at hs
      all_goals cases hs
      all_goals exact h.idle h.tasks rfl rfl rfl rfl rfl rfl
  | receive =>
      rw [act] at hs
      split at hs
      · cases hs
      · split at hs
        next message rest hch =>
          obtain rfl := Option.some.inj hs
          exact h.take hch _
        · split at hs
          · cases hs
          · obtain rfl := Option.some.inj hs
            exact h.idle h.tasks rfl rfl rfl rfl rfl rfl
  | drain =>
      rw [act] at hs
      split at hs
      · cases hs
      · split at hs
        next message rest hch =>
          obtain rfl := Option.some.inj hs
          exact h.take hch _
        · obtain rfl := Option.some.inj hs
          exact h.idle h.tasks rfl rfl rfl rfl rfl rfl
  | reply replies =>
      obtain ⟨-, entry, rest, hq, hcases⟩ := reply_cases hs
      obtain ⟨contextId, registryReady, hw⟩ := s.worker.processItem_frame replies entry.item
      have hne : s.worker.queue ≠ [] := by
        rw [hq]
        exact List.cons_ne_nil _ _
      rw [hw] at hcases
      rcases hcases with ⟨-, rfl⟩ | ⟨e, -, rfl⟩
      · exact h.deliver hq rfl rfl rfl
      · refine h.retry ?_ ?_ ?_ hne e <;> rfl

/-- **A run keeps the health**, as long as the context is created first. -/
theorem healthSound_of_run {session : SessionRuntime} {es : List DeliveryEvent}
    (h : Run (Steps act) (start session) es s) (hfirst : CreatedFirst s.accepted) :
    s.HealthSound := by
  refine h.invariant (I := fun _ s => CreatedFirst s.accepted → s.HealthSound)
    (fun _ => .start session) (fun _ s₁ _ s₂ hI hs hfirst => ?_) hfirst
  obtain ⟨more, hmore⟩ := act_accepted hs
  exact (hI (hmore ▸ hfirst).of_append).step hs hfirst

end DeliverySystem

/-- **The health of the delivery.** In every run in which the context is created first and once,
however the attempts come out and whatever is captured between them: the turns that say that the
delivery is degraded and that it has recovered are delivered in turn, the former first, and at
any time their numbers differ by one at most; and whenever nothing is queued the worker is
healthy and has delivered as many of the one as of the other. -/
theorem delivery_health (session : SessionRuntime) (es : List DeliveryEvent)
    (s : DeliverySystem) (h : Run (Steps DeliverySystem.act) (.start session) es s)
    (hfirst : CreatedFirst s.accepted) :
    Alternates .degraded .recovered (s.delivered.filterMap healthTurn) ∧
      (s.delivered.filterMap healthTurn).count .recovered ≤
        (s.delivered.filterMap healthTurn).count .degraded ∧
      (s.delivered.filterMap healthTurn).count .degraded ≤
        (s.delivered.filterMap healthTurn).count .recovered + 1 ∧
      (s.worker.queue = [] → s.worker.degraded = false ∧
        (s.delivered.filterMap healthTurn).count .degraded =
          (s.delivered.filterMap healthTurn).count .recovered) := by
  have hsound := DeliverySystem.healthSound_of_run h hfirst
  have hsplit : s.healthTurns =
      s.delivered.filterMap healthTurn ++ s.worker.queue.filterMap healthTurn :=
    List.filterMap_append
  have halternates := hsound.alternates
  rw [hsplit] at halternates
  have hcount := halternates.of_append.count HealthTurn.noConfusion
  refine ⟨halternates.of_append, by omega, by omega, fun hempty => ?_⟩
  have hhealthy : ¬ s.worker.degraded = true := fun hdegraded => hsound.queued hdegraded hempty
  have heven := hsound.even_of_not fun hno => hhealthy hno.1
  rw [hsplit, hempty, List.filterMap_nil, List.append_nil] at heven
  exact ⟨Bool.eq_false_iff.mpr hhealthy, by omega⟩

/-- The context cannot be created at first; then everything is delivered. -/
def troubledSession : List DeliveryEvent :=
  [.createContext, .check, .receive, .check, .drain, .reply (repliesWith 503 "Unavailable"),
    .tick 250, .wake, .check, .drain, .reply (repliesWith 200 "OK"), .check, .drain,
    .reply (repliesWith 200 "OK"), .check, .drain, .reply (repliesWith 200 "OK")]

/-- The health of that session: one turn of each kind is delivered. -/
theorem delivery_health_troubledSession :
    ∃ s, Run (Steps DeliverySystem.act) (.start freshSession) troubledSession s ∧
      s.delivered.filterMap healthTurn = [.degraded, .recovered] ∧ s.worker.queue = [] ∧
      s.worker.degraded = false := by
  obtain ⟨s, hrun, haccepted, hturns, hempty⟩ := exists_run_of_foldlM (fun _ _ => True)
    DeliverySystem.act (.start freshSession) troubledSession
    (fun s => s.accepted = [.createContext] ∧
      s.delivered.filterMap healthTurn = [.degraded, .recovered] ∧ s.worker.queue = [])
    (by decide)
  refine ⟨s, hrun.of_guarded, hturns, hempty, ?_⟩
  exact ((delivery_health freshSession troubledSession s hrun.of_guarded
    (Or.inr ⟨[], haccepted, List.not_mem_nil⟩)).2.2.2 hempty).1

end Cxdb
