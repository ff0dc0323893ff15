import Mathlib.Data.List.Basic
import Cxdb.RequestQueue

/-!
# Answers to Queued Operations

Every operation that the queue of a reconnecting client accepts should be answered once, by
its own outcome or by the error of a closed client, and no operation should be applied to
the client after it was reported closed. The second holds in every run. The first fails in
two ways: a caller that has seen an open client can send its operation when the sender has
stopped already, and the sender of the Go client crashes on an operation that it takes when
a reconnect has left it without a client.

## Main results

* `QueueState.Invariant.step`: an accepted operation is in the queue, in the hands of the
  sender, or answered, and only one of these.
* `queue_answers`: every accepted operation is answered, in a fair behaviour, exactly if
  neither of the two happens.
-/

open Transition

namespace Cxdb

/-! ### The invariant -/

/-- The places where an operation is: the queue, the hands of the sender, its answers. -/
def QueueState.tally (s : QueueState) (i : ℕ) : ℕ :=
  s.queue.count i + s.sender.op.toList.count i + (s.results i).length

/-- What holds of every reachable state. -/
structure QueueState.Invariant (cfg : QueueConfig) (s : QueueState) : Prop where
  tally : ∀ i, s.tally i = (s.callers i).queued.toNat
  room : s.queue.length ≤ cfg.queueSize
  returned : ∀ i r, s.callers i = .returned (some r) → r ∈ s.results i

variable {lib : ClientLib} {cfg : QueueConfig} {s s' : QueueState} {e : QueueEvent}

theorem QueueState.Invariant.initial : QueueState.initial.Invariant cfg where
  tally _ := rfl
  room := Nat.zero_le _
  returned _ _ h := by cases h

/-- One more answer. -/
theorem QueueState.length_report (s : QueueState) (i j : ℕ) (r : OpResult) :
    ((s.report i r).results j).length = (s.results j).length + [i].count j := by
  by_cases hij : j = i
  · subst hij
    rw [report_self, List.length_append, List.length_singleton, List.count_singleton_self]
  · rw [report_of_ne hij, List.count_singleton, if_neg (by simpa using Ne.symm hij), Nat.add_zero]

/-- More answers keep those that there are. -/
theorem QueueState.mem_report {i j : ℕ} {r r' : OpResult} (h : r' ∈ s.results j) :
    r' ∈ (s.report i r).results j := by
  by_cases hij : j = i
  · subst hij
    rw [report_self]
    exact List.mem_append_left _ h
  · rwa [report_of_ne hij]

/-- A caller goes on: what holds of the callers of the old state holds of the new one, if it
holds of this caller. -/
theorem QueueState.forall_setCaller {P : ℕ → CallerPhase → Prop} {i : ℕ} {p : CallerPhase}
    (h : ∀ j, P j (s.callers j)) (hi : P i p) (j : ℕ) : P j ((s.setCaller i p).callers j) := by
  by_cases hij : j = i
  · subst hij
    rwa [setCaller_self]
  · rw [setCaller_of_ne hij]
    exact h j

/-- A caller whose operation has been accepted. -/
theorem QueueState.queued_setCaller_waiting (s : QueueState) {i : ℕ}
    (h : (s.callers i).queued = false) (j : ℕ) :
    ((s.setCaller i .waiting).callers j).queued.toNat =
      (s.callers j).queued.toNat + [i].count j := by
  by_cases hij : j = i
  · subst hij
    rw [setCaller_self, h, List.count_singleton_self]
    rfl
  · rw [setCaller_of_ne hij, List.count_singleton, if_neg (by simpa using Ne.symm hij), Nat.add_zero]

theorem QueueState.Invariant.change (h : s.Invariant cfg) (hs : s.Change lib cfg e s') :
    s'.Invariant cfg := by
  have hwaiting : ∀ i j r, (s.setCaller i .waiting).callers j = .returned (some r) →
      r ∈ s.results j := fun i =>
    forall_setCaller (P := fun j p => ∀ r, p = .returned (some r) → r ∈ s.results j)
      h.returned fun r hr => by cases hr
  cases hs with
  | @caller i e p hqueued hresult =>
      refine ⟨?_, h.room, forall_setCaller
        (P := fun j p => ∀ r, p = .returned (some r) → r ∈ s.results j) h.returned hresult⟩
      exact forall_setCaller (P := fun j p => s.tally j = p.queued.toNat) h.tally
        (by rw [hqueued]; exact h.tally i)
  | @accept i hqueued hroom =>
      refine ⟨fun j => ?_, by rw [List.length_append]; exact hroom, hwaiting i⟩
      show (s.queue ++ [i]).count j + s.sender.op.toList.count j + (s.results j).length =
        ((s.setCaller i .waiting).callers j).queued.toNat
      rw [queued_setCaller_waiting s hqueued, ← h.tally j, QueueState.tally, List.count_append]
      omega
  | @handOver i hqueued hidle hsize =>
      refine ⟨fun j => ?_, h.room, hwaiting i⟩
      show s.queue.count j + [i].count j + (s.results j).length =
        ((s.setCaller i .waiting).callers j).queued.toNat
      rw [queued_setCaller_waiting s hqueued, ← h.tally j, QueueState.tally, hidle]
      simp only [SenderPhase.op, Option.toList, List.count_nil]
      omega
  | flags closed signalled => exact ⟨h.tally, h.room, h.returned⟩
  | move client hends hop =>
      refine ⟨fun j => ?_, h.room, h.returned⟩
      rw [← h.tally j, QueueState.tally, QueueState.tally, hop]
  | @take i rest hidle hqueue =>
      have hroom := h.room
      rw [hqueue, List.length_cons] at hroom
      refine ⟨fun j => ?_, Nat.le_of_succ_le hroom, h.returned⟩
      rw [← h.tally j, QueueState.tally, QueueState.tally, hidle, hqueue, List.count_cons]
      simp only [SenderPhase.op, Option.toList, List.count_nil, List.count_singleton]
      omega
  | @finish e i r hop =>
      refine ⟨fun j => ?_, h.room, fun j r' hj => mem_report (h.returned j r' hj)⟩
      show s.queue.count j + 0 + ((s.report i r).results j).length = (s.callers j).queued.toNat
      rw [← h.tally j, QueueState.tally, hop, length_report, Option.toList]
      omega
  | @drain i rest hdraining hqueue =>
      have hroom := h.room
      rw [hqueue, List.length_cons] at hroom
      refine ⟨fun j => ?_, Nat.le_of_succ_le hroom, fun j r hj => mem_report (h.returned j r hj)⟩
      show rest.count j + s.sender.op.toList.count j + ((s.report i .closed).results j).length =
        (s.callers j).queued.toNat
      rw [← h.tally j, QueueState.tally, hqueue, length_report]
      simp only [List.count_cons, List.count_nil]
      omega
  | exit hdraining hqueue =>
      refine ⟨fun j => ?_, h.room, h.returned⟩
      rw [← h.tally j, QueueState.tally, QueueState.tally, hdraining]
      rfl

/-! ### What is lost -/

/-- The step neither sends an operation to a sender that has stopped, nor applies one to a
client that is not there. -/
def QueueState.Safe (lib : ClientLib) (cfg : QueueConfig) (s : QueueState) : QueueEvent → Prop
  | .caller _ .send => s.sender = .exited → cfg.queueSize ≤ s.queue.length
  | .sender .begin => lib = .go → s.client = true
  | _ => True

/-- The sender has not crashed, and has left nothing behind. -/
structure QueueState.Settled (s : QueueState) : Prop where
  exited : s.sender = .exited → s.queue = []
  crashed : ∀ i, s.sender ≠ .crashed i

theorem QueueState.Settled.initial : QueueState.initial.Settled :=
  ⟨fun _ => rfl, fun _ h => by cases h⟩

theorem QueueState.Settled.change (h : s.Settled) (hsafe : s.Safe lib cfg e)
    (hs : s.Change lib cfg e s') : s'.Settled := by
  cases hs with
  | caller => exact ⟨h.exited, h.crashed⟩
  | accept hqueued hroom =>
      refine ⟨fun hexited => ?_, h.crashed⟩
      exact absurd (hsafe hexited) (Nat.not_le.mpr hroom)
  | handOver hqueued hidle => exact ⟨nofun, nofun⟩
  | flags => exact ⟨h.exited, h.crashed⟩
  | move client hends hop hwork hexited hcrashed =>
      refine ⟨fun hp => absurd hp hexited, fun i hp => ?_⟩
      obtain ⟨rfl, hgo, hnone, -⟩ := hcrashed i hp
      rw [hsafe hgo] at hnone
      cases hnone
  | take => exact ⟨nofun, nofun⟩
  | finish => exact ⟨nofun, nofun⟩
  | drain hdraining hqueue =>
      refine ⟨fun hexited => ?_, h.crashed⟩
      exact absurd (hdraining.symm.trans hexited) nofun
  | exit hdraining hqueue => exact ⟨fun _ => hqueue, nofun⟩

/-- The operation is left behind by a sender that has stopped or crashed. -/
def QueueState.Lost (s : QueueState) (i : ℕ) : Prop :=
  s.sender = .exited ∧ i ∈ s.queue ∨ s.sender = .crashed i

/-- What is lost stays lost. -/
theorem QueueState.Lost.change {i : ℕ} (h : s.Lost i) (hs : s.Change lib cfg e s') :
    s'.Lost i := by
  have hwork : s.sender.work cfg = 0 := by
    rcases h with ⟨hexited, -⟩ | hcrashed
    · rw [hexited, SenderPhase.work]
    · rw [hcrashed, SenderPhase.work]
  have hne : s.sender ≠ .idle ∧ s.sender ≠ .draining := by
    rcases h with ⟨hexited, -⟩ | hcrashed
    · rw [hexited]
      exact ⟨by simp, by simp⟩
    · rw [hcrashed]
      exact ⟨by simp, by simp⟩
  cases hs with
  | caller => exact h
  | accept =>
      rcases h with ⟨hexited, hmem⟩ | hcrashed
      · exact Or.inl ⟨hexited, List.mem_append_left _ hmem⟩
      · exact Or.inr hcrashed
  | handOver hqueued hidle => exact absurd hidle hne.1
  | flags => exact h
  | move client hends hop hlt =>
      rw [hwork] at hlt
      exact absurd hlt (Nat.not_lt_zero _)
  | take hidle => exact absurd hidle hne.1
  | finish r hop hlt =>
      rw [hwork] at hlt
      exact absurd hlt (Nat.not_lt_zero _)
  | drain hdraining => exact absurd hdraining hne.2
  | exit hdraining => exact absurd hdraining hne.2

/-- What is lost has no answer. -/
theorem QueueState.Lost.results {i : ℕ} (h : s.Lost i) (hs : s.Invariant cfg) :
    s.results i = [] := by
  have htally := hs.tally i
  have hbound : (s.callers i).queued.toNat ≤ 1 := Bool.toNat_le _
  rw [QueueState.tally] at htally
  have hplace : 1 ≤ s.queue.count i + s.sender.op.toList.count i := by
    rcases h with ⟨-, hmem⟩ | hcrashed
    · exact Nat.le_add_right_of_le (List.count_pos_iff.mpr hmem)
    · rw [hcrashed]
      simp [SenderPhase.op]
  exact List.length_eq_zero_iff.mp (by omega)

/-! ### What is answered -/

/-- An accepted operation that has no answer yet. -/
def QueueState.Pending (s : QueueState) (i : ℕ) : Prop :=
  (s.callers i).queued = true ∧ s.results i = []

/-- A pending operation is in the hands of the sender or in the queue. -/
theorem QueueState.Pending.place {i : ℕ} (h : s.Pending i) (hs : s.Invariant cfg) :
    s.sender.op = some i ∨ s.sender.op ≠ some i ∧ i ∈ s.queue := by
  have htally := hs.tally i
  rw [QueueState.tally, h.1, h.2] at htally
  by_cases hop : s.sender.op = some i
  · exact Or.inl hop
  · refine Or.inr ⟨hop, List.count_pos_iff.mp ?_⟩
    have hnone : s.sender.op.toList.count i = 0 := by
      cases hs : s.sender.op with
      | none => rfl
      | some j =>
          rw [Option.toList, List.count_singleton, if_neg]
          rintro heq
          rw [hs, beq_iff_eq.mp heq] at hop
          exact hop rfl
    rw [hnone] at htally
    simp only [List.length_nil, Bool.toNat_true] at htally
    omega

/-- How long the sender needs to get to the operation and through it. -/
def QueueState.rank (cfg : QueueConfig) (i : ℕ) (s : QueueState) : ℕ :=
  (if s.sender.op = some i then 0 else (2 * cfg.maxRetries + 7) * (s.queue.idxOf i + 1)) +
    s.sender.work cfg

/-- An event of the sender. -/
def QueueEvent.IsSender : QueueEvent → Prop
  | .sender _ => True
  | _ => False

theorem QueueState.rank_of_op {i : ℕ} (h : s.sender.op = some i) :
    s.rank cfg i = s.sender.work cfg := by
  rw [rank, if_pos h, Nat.zero_add]

theorem QueueState.rank_of_queue {i : ℕ} (h : s.sender.op ≠ some i) :
    s.rank cfg i =
      (2 * cfg.maxRetries + 7) * (s.queue.idxOf i + 1) + s.sender.work cfg := by
  rw [rank, if_neg h]

/-- **The rank of a pending operation.** The sender lowers it and nobody raises it. -/
theorem QueueState.rank_change {i : ℕ} (hs : s.Invariant cfg) (h : s.Pending i)
    (h' : s'.Pending i) (hchange : s.Change lib cfg e s') :
    s'.rank cfg i ≤ s.rank cfg i ∧ (e.IsSender → s'.rank cfg i < s.rank cfg i) := by
  cases hchange with
  | caller => exact ⟨Nat.le_refl _, fun h => h.elim⟩
  | @accept j hqueued hroom =>
      refine ⟨Nat.le_of_eq ?_, fun h => h.elim⟩
      show (if s.sender.op = some i then 0 else
        (2 * cfg.maxRetries + 7) * ((s.queue ++ [j]).idxOf i + 1)) + s.sender.work cfg = _
      rcases h.place hs with hop | ⟨hop, hmem⟩
      · rw [rank_of_op hop, if_pos hop, Nat.zero_add]
      · rw [rank_of_queue hop, if_neg hop, List.idxOf_append_of_mem hmem]
  | handOver hqueued hidle hsize =>
      have hroom := hs.room
      rcases h.place hs with hop | ⟨-, hmem⟩
      · rw [hidle] at hop
        cases hop
      · have := List.length_pos_of_mem hmem
        omega
  | flags => exact ⟨Nat.le_refl _, fun h => h.elim⟩
  | @move e p client hends hop hwork =>
      have hlt : QueueState.rank cfg i { s with client, sender := p } < s.rank cfg i := by
        rw [QueueState.rank, QueueState.rank, hop]
        exact Nat.add_lt_add_left hwork _
      exact ⟨Nat.le_of_lt hlt, fun _ => hlt⟩
  | @take j rest hidle hqueue =>
      have hlt : QueueState.rank cfg i { s with sender := .taken j, queue := rest } <
          s.rank cfg i := by
        have hop : s.sender.op ≠ some i := by
          rw [hidle]
          exact (Option.some_ne_none i).symm
        rw [rank_of_queue hop, hidle, hqueue, SenderPhase.work]
        by_cases hij : j = i
        · subst hij
          rw [rank_of_op rfl, SenderPhase.work, List.idxOf_cons_self]
          omega
        · have hop' : (SenderPhase.taken j).op ≠ some i := fun heq => hij (Option.some.inj heq)
          rw [rank, if_neg hop', SenderPhase.work, List.idxOf_cons_ne _ hij,
            Nat.mul_succ _ (rest.idxOf i + 1)]
          dsimp only
          omega
      exact ⟨Nat.le_of_lt hlt, fun _ => hlt⟩
  | @finish e j r hop hwork =>
      have hij : j ≠ i := by
        rintro rfl
        have hnone : (s.report j r).results j = [] := h'.2
        rw [report_self] at hnone
        exact absurd hnone (List.append_ne_nil_of_right_ne_nil _ (List.cons_ne_nil _ _))
      have hlt : (s.finish j r).rank cfg i < s.rank cfg i := by
        have hop' : s.sender.op ≠ some i := fun heq => hij (Option.some.inj (hop.symm.trans heq))
        have hidle : SenderPhase.idle.op ≠ some i := (Option.some_ne_none i).symm
        show (if SenderPhase.idle.op = some i then 0 else
          (2 * cfg.maxRetries + 7) * (s.queue.idxOf i + 1)) + 1 < _
        rw [if_neg hidle, rank_of_queue hop']
        exact Nat.add_lt_add_left hwork _
      exact ⟨Nat.le_of_lt hlt, fun _ => hlt⟩
  | @drain j rest hdraining hqueue =>
      have hij : j ≠ i := by
        rintro rfl
        have hnone : (s.report j .closed).results j = [] := h'.2
        rw [report_self] at hnone
        exact absurd hnone (List.append_ne_nil_of_right_ne_nil _ (List.cons_ne_nil _ _))
      have hlt : QueueState.rank cfg i { s.report j .closed with queue := rest } <
          s.rank cfg i := by
        have hop : s.sender.op ≠ some i := by
          rw [hdraining]
          exact (Option.some_ne_none i).symm
        show (if s.sender.op = some i then 0 else
          (2 * cfg.maxRetries + 7) * (rest.idxOf i + 1)) + s.sender.work cfg < _
        rw [if_neg hop, rank_of_queue hop, hqueue, List.idxOf_cons_ne _ hij,
          Nat.mul_succ _ (rest.idxOf i + 1)]
        omega
      exact ⟨Nat.le_of_lt hlt, fun _ => hlt⟩
  | exit hdraining hqueue =>
      rcases h.place hs with hop | ⟨-, hmem⟩
      · rw [hdraining] at hop
        cases hop
      · rw [hqueue] at hmem
        cases hmem

/-- While an operation is pending the sender can go on. -/
theorem QueueState.Pending.enabled {i : ℕ} (h : s.Pending i) (hs : s.Invariant cfg)
    (hsettled : s.Settled) : Enabled (QueueStep lib cfg) QueueEvent.IsSender s := by
  have hplace := h.place hs
  suffices hnext : ∃ e, (s.execSender lib cfg e).isSome by
    obtain ⟨e, he⟩ := hnext
    obtain ⟨s', hs'⟩ := Option.isSome_iff_exists.mp he
    exact ⟨.sender e, s', trivial, hs'⟩
  have hqueue : s.sender.op = none → ∃ j rest, s.queue = j :: rest := by
    intro hop
    rcases hplace with hi | ⟨-, hmem⟩
    · rw [hop] at hi
      cases hi
    · exact List.exists_cons_of_ne_nil (List.ne_nil_of_mem hmem)
  cases hphase : s.sender with
  | idle =>
      obtain ⟨j, rest, hqueue⟩ := hqueue (by rw [hphase]; rfl)
      exact ⟨.take, by simp [QueueState.execSender, hphase, hqueue]⟩
  | taken j => exact ⟨.contextDone, by simp [QueueState.execSender, hphase]⟩
  | calling j retry => exact ⟨.done false, by simp [QueueState.execSender, hphase]⟩
  | reconnecting j attempt delayed =>
      by_cases hlast : cfg.maxRetries < attempt
      · exact ⟨.giveUp, by simp [QueueState.execSender, hphase, hlast]⟩
      · by_cases hdelays : Delays cfg attempt delayed
        · exact ⟨.delay, by simp [QueueState.execSender, hphase, hdelays]⟩
        · have hdials : Dials cfg attempt delayed := by
            refine ⟨Nat.le_of_not_lt hlast, ?_⟩
            by_contra hnot
            rw [not_or, Nat.not_le, Bool.not_eq_true] at hnot
            exact hdelays ⟨hnot.1, Nat.le_of_not_lt hlast, hnot.2⟩
          by_cases hstop : lib = .rust ∧ s.closed = true
          · exact ⟨.stop, by simp [QueueState.execSender, hphase, hdials, hstop]⟩
          · exact ⟨.dial true, by simp [QueueState.execSender, hphase, hdials, hstop]⟩
  | draining =>
      obtain ⟨j, rest, hqueue⟩ := hqueue (by rw [hphase]; rfl)
      exact ⟨.drain, by simp [QueueState.execSender, hphase, hqueue]⟩
  | exited =>
      obtain ⟨j, rest, hqueue⟩ := hqueue (by rw [hphase]; rfl)
      rw [hsettled.exited hphase] at hqueue
      cases hqueue
  | crashed j => exact absurd hphase (hsettled.crashed j)

/-! ### Once, and not after it was reported closed -/

/-- The operation that a step applies to a client, if it does: in Go to a missing one, too. -/
def QueueState.applied (lib : ClientLib) (s : QueueState) : QueueEvent → Option ℕ
  | .sender .begin =>
      match s.sender with
      | .taken i => if s.client ∨ lib = .go then some i else none
      | _ => none
  | .sender (.dial true) =>
      match s.sender with
      | .reconnecting i _ _ => some i
      | _ => none
  | _ => none

/-- The operation has been reported closed, to its channel or to its caller. -/
def QueueState.ReportedClosed (s : QueueState) (i : ℕ) : Prop :=
  .closed ∈ s.results i ∨ s.callers i = .refused .closed ∨
    s.callers i = .returned (some .closed)

theorem QueueState.Invariant.once (h : s.Invariant cfg) (i : ℕ) : (s.results i).length ≤ 1 := by
  have htally := h.tally i
  have hbound : (s.callers i).queued.toNat ≤ 1 := Bool.toNat_le _
  rw [QueueState.tally] at htally
  omega

/-- What is applied is in the hands of the sender. -/
theorem QueueState.op_of_applied {i : ℕ} (h : s.applied lib e = some i) :
    s.sender.op = some i := by
  rw [applied.eq_def] at h
  split at h
  · split at h
    next j hj =>
      split at h
      · rw [hj]
        exact h
      · cases h
    · cases h
  · split at h
    next j attempt delayed hj =>
      rw [hj]
      exact h
    · cases h
  · cases h

/-- **No operation is applied after it was reported closed.** -/
theorem QueueState.Invariant.notReported (h : s.Invariant cfg) {i : ℕ}
    (happlied : s.applied lib e = some i) : ¬s.ReportedClosed i := by
  have hop := op_of_applied happlied
  have htally := h.tally i
  rw [QueueState.tally, hop, Option.toList, List.count_singleton_self] at htally
  have hbound : (s.callers i).queued.toNat ≤ 1 := Bool.toNat_le _
  have hnone : s.results i = [] := List.length_eq_zero_iff.mp (by omega)
  have hqueued : (s.callers i).queued = true := by
    by_contra hnot
    rw [Bool.not_eq_true] at hnot
    rw [hnot] at htally
    simp only [Bool.toNat_false] at htally
    omega
  rintro (hresult | hrefused | hreturned)
  · rw [hnone] at hresult
    cases hresult
  · rw [hrefused] at hqueued
    cases hqueued
  · have := h.returned i .closed hreturned
    rw [hnone] at this
    cases this

/-! ### Behaviours -/

/-- What a queue owes to its callers: every accepted operation is answered exactly once, no
caller waits forever, and nothing is applied after it was reported closed. -/
structure QueueAnswers (b : Behaviour (QueueStep lib cfg) .initial) : Prop where
  once : ∀ n i, ((b.state n).results i).length ≤ 1
  answered : ∀ n i, ((b.state n).callers i).queued = true →
    ∃ m, n ≤ m ∧ (b.state m).results i ≠ []
  returned : ∀ n i, (b.state n).callers i = .waiting →
    ∃ m r, n ≤ m ∧ (b.state m).callers i = .returned r
  notReported : ∀ n e i, b.event n = some e → (b.state n).applied lib e = some i →
    ¬(b.state n).ReportedClosed i

variable (b : Behaviour (QueueStep lib cfg) .initial)

theorem QueueState.invariant_of_behaviour (n : ℕ) : (b.state n).Invariant cfg :=
  b.invariant .initial (fun _ _ _ hs h => h.change (change hs)) n

theorem QueueState.queued_change {i : ℕ} (hs : s.Change lib cfg e s')
    (h : (s.callers i).queued = true) : (s'.callers i).queued = true := by
  cases hs with
  | caller hqueued =>
      exact forall_setCaller
        (P := fun j p => (s.callers j).queued = true → p.queued = true) (fun _ h => h)
        (fun h => by rw [hqueued]; exact h) i h
  | accept hqueued | handOver hqueued =>
      exact forall_setCaller
        (P := fun j p => (s.callers j).queued = true → p.queued = true) (fun _ h => h)
        (fun _ => rfl) i h
  | _ => exact h

theorem QueueState.results_change {i : ℕ} (hs : s.Change lib cfg e s') (h : s.results i ≠ []) :
    s'.results i ≠ [] := by
  obtain ⟨r, hr⟩ := List.exists_mem_of_ne_nil _ h
  cases hs with
  | finish | drain => exact List.ne_nil_of_mem (mem_report hr)
  | _ => exact h

/-- Every accepted operation is answered, if every step is safe. -/
theorem QueueAnswers.answered_of_safe (hsender : b.WeaklyFair QueueEvent.IsSender)
    (hsafe : b.Meets (QueueState.Safe lib cfg)) (n i : ℕ)
    (h : ((b.state n).callers i).queued = true) : ∃ m, n ≤ m ∧ (b.state m).results i ≠ [] := by
  have hinv := QueueState.invariant_of_behaviour b
  have hsettled : ∀ n, (b.state n).Settled :=
    b.invariant .initial fun n e he hs h => h.change (hsafe n e he) (QueueState.change hs)
  obtain ⟨m, hm, hnot⟩ := b.eventually_of_rank (P := (·.Pending i)) (QueueState.rank cfg i) hsender
    (fun n hpending => hpending.enabled (hinv n) (hsettled n))
    (fun n e _ hs hpending hpending' =>
      QueueState.rank_change (hinv n) hpending hpending' (QueueState.change hs)) n
  have hqueued : ((b.state m).callers i).queued = true :=
    b.persists (P := fun s => (s.callers i).queued = true)
      (fun _ _ _ hs => QueueState.queued_change (QueueState.change hs)) hm h
  exact ⟨m, hm, fun hnone => hnot ⟨hqueued, hnone⟩⟩

/-- A caller whose operation is answered returns. -/
theorem QueueAnswers.returned_of_answered {i : ℕ}
    (hcaller : b.WeaklyFair (· = .caller i .receive)) {n m : ℕ}
    (h : (b.state n).callers i = .waiting) (hm : n ≤ m) (hresult : (b.state m).results i ≠ []) :
    ∃ m r, n ≤ m ∧ (b.state m).callers i = .returned r := by
  obtain ⟨k, hk, hnot⟩ := b.eventually_of_rank
    (P := fun s => s.callers i = .waiting ∧ s.results i ≠ []) (show QueueState → ℕ from fun _ => 0)
    hcaller (fun n hP => by
      obtain ⟨r, rest, hr⟩ := List.exists_cons_of_ne_nil hP.2
      refine ⟨_, (b.state n).setCaller i (.returned (some r)), rfl, ?_⟩
      simp [Steps, QueueState.exec, QueueState.execCaller, hP.1, hr])
    (fun n e _ hs hP hP' => by
      refine ⟨Nat.le_refl _, ?_⟩
      rintro rfl
      obtain ⟨r, rest, hr⟩ := List.exists_cons_of_ne_nil hP.2
      simp only [Steps, QueueState.exec, QueueState.execCaller, hP.1, hr] at hs
      have hreturned := hP'.1
      rw [← Option.some.inj hs, QueueState.setCaller_self] at hreturned
      cases hreturned) m
  have hqueued : ((b.state k).callers i).queued = true :=
    b.persists (P := fun s => (s.callers i).queued = true)
      (fun _ _ _ hs => QueueState.queued_change (QueueState.change hs))
      (Nat.le_trans hm hk) (by rw [h]; rfl)
  have hresult' : (b.state k).results i ≠ [] :=
    b.persists (P := fun s => s.results i ≠ [])
      (fun _ _ _ hs => QueueState.results_change (QueueState.change hs)) hk hresult
  cases hphase : (b.state k).callers i with
  | returned r => exact ⟨k, r, Nat.le_trans hm hk, hphase⟩
  | waiting => exact absurd ⟨hphase, hresult'⟩ hnot
  | fresh | checked | refused =>
      rw [hphase] at hqueued
      cases hqueued

/-- A step that is not safe loses an operation that was accepted. -/
theorem QueueState.lost_of_not_safe (hinv : s.Invariant cfg) (h : QueueStep lib cfg s e s')
    (hnot : ¬s.Safe lib cfg e) : ∃ i, (s'.callers i).queued = true ∧ s'.Lost i := by
  rw [Safe.eq_def] at hnot
  split at hnot
  next i =>
    rw [Classical.not_imp, Nat.not_le] at hnot
    obtain ⟨hexited, hroom⟩ := hnot
    simp only [Steps, exec, execCaller, if_pos hroom] at h
    split at h
    · obtain rfl := Option.some.inj h
      refine ⟨i, ?_, Or.inl ⟨hexited, List.mem_append_right _ List.mem_cons_self⟩⟩
      show ((s.setCaller i .waiting).callers i).queued = true
      rw [setCaller_self]
      rfl
    · cases h
  · rw [Classical.not_imp, Bool.not_eq_true] at hnot
    obtain ⟨rfl, hnone⟩ := hnot
    simp only [Steps, exec, execSender, hnone, Bool.false_eq_true, if_false] at h
    split at h
    next i htaken =>
      obtain rfl := Option.some.inj h
      refine ⟨i, ?_, Or.inr rfl⟩
      have htally := hinv.tally i
      rw [tally, htaken, SenderPhase.op, Option.toList, List.count_singleton_self] at htally
      by_contra hqueued
      rw [Bool.not_eq_true] at hqueued
      dsimp only at hqueued
      rw [hqueued] at htally
      simp only [Bool.toNat_false] at htally
      omega
    · cases h
  · exact absurd trivial hnot

/-- **When every accepted operation is answered.** In a behaviour in which the sender goes on
as long as it can, and callers receive the results that are there: exactly if no operation
is sent into a queue whose sender has stopped and, in Go, none is taken up while a failed
reconnect has left no client. That an operation is answered at most once, and not applied
after it was reported closed, holds in every behaviour. -/
theorem queue_answers (lib : ClientLib) (cfg : QueueConfig)
    (b : Behaviour (QueueStep lib cfg) .initial) (hsender : b.WeaklyFair QueueEvent.IsSender)
    (hcallers : ∀ i, b.WeaklyFair (· = .caller i .receive)) :
    QueueAnswers b ↔ b.Meets (QueueState.Safe lib cfg) := by
  have hinv := QueueState.invariant_of_behaviour b
  constructor
  · intro h n e he
    by_contra hnot
    rcases b.step_or_stay n with ⟨e', he', hs⟩ | ⟨hnone, -⟩
    · obtain rfl := Option.some.inj (he'.symm.trans he)
      obtain ⟨i, hqueued, hlost⟩ := QueueState.lost_of_not_safe (hinv n) hs hnot
      obtain ⟨m, hm, hresult⟩ := h.answered (n + 1) i hqueued
      have hlost' : (b.state m).Lost i :=
        b.persists (P := (·.Lost i)) (fun _ _ _ hs h => h.change (QueueState.change hs)) hm hlost
      exact hresult (hlost'.results (hinv m))
    · rw [hnone] at he
      cases he
  · intro hsafe
    refine ⟨fun n i => (hinv n).once i, QueueAnswers.answered_of_safe b hsender hsafe,
      fun n i h => ?_, fun n e i _ happlied => (hinv n).notReported happlied⟩
    obtain ⟨m, hm, hresult⟩ := QueueAnswers.answered_of_safe b hsender hsafe n i (by rw [h]; rfl)
    exact QueueAnswers.returned_of_answered b (hcallers i) h hm hresult

/-! ### One operation, answered and lost -/

/-- A caller whose operation is answered. -/
def answeredOperation : List QueueEvent :=
  [.caller 0 .check, .caller 0 .send, .sender .take, .sender .begin, .sender (.done false),
    .caller 0 .receive]

/-- `queue_answers` for one operation. -/
theorem queue_answers_answeredOperation :
    QueueAnswers (Behaviour.ofEvents (QueueState.exec .go ⟨5, 1⟩) .initial answeredOperation rfl) := by
  have hrun : answeredOperation.foldlM (QueueState.exec .go ⟨5, 1⟩) .initial = some
      (((QueueState.initial.setCaller 0 .checked).setCaller 0 .waiting).finish 0 .outcome
        |>.setCaller 0 (.returned (some .outcome))) := rfl
  refine (queue_answers .go ⟨5, 1⟩ _ ?_ fun i => ?_).mpr ?_
  · refine Behaviour.ofEvents_weaklyFair hrun ?_
    rintro ⟨e, s', he, hs⟩
    cases e with
    | caller | close => exact he
    | sender e => cases e <;> cases hs
  · refine Behaviour.ofEvents_weaklyFair hrun ?_
    rintro ⟨e, s', rfl, hs⟩
    by_cases hi : i = 0
    · subst hi
      cases hs
    · simp [Steps, QueueState.exec, QueueState.execCaller, QueueState.finish, QueueState.report,
        QueueState.setCaller, hi, QueueState.initial] at hs
  · intro n e he
    rcases n with _ | _ | _ | _ | _ | _ | n
    all_goals cases he
    · exact trivial
    · exact fun h => by cases h
    · exact trivial
    · exact fun _ => rfl
    · exact trivial
    · exact trivial

/-- A caller that has seen an open client sends when the sender has stopped. -/
def lateOperation : List QueueEvent :=
  [.caller 0 .check, .close .set, .close .signal, .sender .shutdown, .sender .exit,
    .caller 0 .send]

/-- An operation that is accepted and never answered: its caller waits forever. -/
def LosesOperation (lib : ClientLib) : Prop :=
  ∃ s, Run (QueueStep lib ⟨5, 1⟩) .initial lateOperation s ∧ s.callers 0 = .waiting ∧
    ∀ es s', Run (QueueStep lib ⟨5, 1⟩) s es s' → s'.results 0 = []

theorem losesOperation_of_run {lib : ClientLib}
    (hrun : Run (QueueStep lib ⟨5, 1⟩) .initial lateOperation s) (hwaiting : s.callers 0 = .waiting)
    (hexited : s.sender = .exited) (hqueue : s.queue = [0]) : LosesOperation lib := by
  refine ⟨s, hrun, hwaiting, fun es s' hrun' => ?_⟩
  have hinv : s.Invariant ⟨5, 1⟩ := hrun.invariant (I := fun _ s => s.Invariant ⟨5, 1⟩) .initial
    fun _ _ _ _ h hs => h.change (QueueState.change hs)
  have hlost : s.Lost 0 := Or.inl ⟨hexited, by rw [hqueue]; exact List.mem_cons_self⟩
  obtain ⟨hinv', hlost'⟩ := hrun'.invariant (I := fun _ s => s.Invariant ⟨5, 1⟩ ∧ s.Lost 0)
    ⟨hinv, hlost⟩ fun _ _ _ _ h hs =>
      ⟨h.1.change (QueueState.change hs), h.2.change (QueueState.change hs)⟩
  exact hlost'.results hinv'

/-- **A late operation is lost**, in both wrappers. -/
theorem late_operation_lost : LosesOperation .rust ∧ LosesOperation .go :=
  ⟨losesOperation_of_run (Run.of_guarded (run_of_foldlM (C := fun _ _ => True) rfl)) rfl rfl rfl,
    losesOperation_of_run (Run.of_guarded (run_of_foldlM (C := fun _ _ => True) rfl)) rfl rfl rfl⟩

end Cxdb
