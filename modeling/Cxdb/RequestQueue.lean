import Mathlib.Logic.Function.Basic
import Cxdb.Clients
import Cxdb.FairRuns

/-!
# The Queue of the Reconnecting Clients

`ReconnectingClient` of `reconnect.rs` and of `reconnect.go`: callers put operations into a
bounded queue and wait for their results; one sender takes them out, applies each to the
client that it has, and reconnects after a connection error. `close` sets a flag, tells the
sender, and waits until the sender has answered what is in the queue and has stopped.

A caller is named by a number, and so is its operation. A caller looks at the flag first and
sends later; whatever happens in between happens between two steps here as well.
-/

open Transition

namespace Cxdb

/-! ### The state -/

structure QueueConfig where
  maxRetries : ℕ
  queueSize : ℕ

/-- What an operation is answered with, through its result channel. -/
inductive OpResult where
  /-- What the operation itself gave, a value or an error. -/
  | outcome
  | contextDone
  | reconnectFailed
  | closed
  deriving DecidableEq

/-- Why `enqueue` does not accept an operation. -/
inductive Refusal where
  | closed
  | contextDone
  | queueFull
  deriving DecidableEq

/-- Where a caller is in `enqueue`. -/
inductive CallerPhase where
  | fresh
  /-- The caller has seen that the client is not closed. -/
  | checked
  | refused (r : Refusal)
  | waiting
  /-- The caller has returned with the result, or because its context was done. -/
  | returned (r : Option OpResult)
  deriving DecidableEq

/-- The operation has been accepted into the queue. -/
def CallerPhase.queued : CallerPhase → Bool
  | .waiting | .returned _ => true
  | _ => false

/-- Where the sender is. -/
inductive SenderPhase where
  | idle
  /-- An operation has come out of the queue. -/
  | taken (i : ℕ)
  /-- The operation is applied to the client, for the first time or after a reconnect. -/
  | calling (i : ℕ) (retry : Bool)
  /-- The loop of `reconnect`, before or behind the delay of an attempt. -/
  | reconnecting (i attempt : ℕ) (delayed : Bool)
  | draining
  | exited
  /-- The operation was applied to a client that is not there. -/
  | crashed (i : ℕ)
  deriving DecidableEq

/-- The operation in the hands of the sender. -/
def SenderPhase.op : SenderPhase → Option ℕ
  | .taken i | .calling i _ | .reconnecting i _ _ | .crashed i => some i
  | _ => none

/-- `reconnect` is running; in Go it holds the lock then. -/
def SenderPhase.inReconnect : SenderPhase → Bool
  | .reconnecting _ _ _ => true
  | _ => false

structure QueueState where
  closed : Bool
  /-- The sender has been told to stop. -/
  signalled : Bool
  /-- There is a client, whether or not its connection still works. -/
  client : Bool
  queue : List ℕ
  sender : SenderPhase
  callers : ℕ → CallerPhase
  /-- What has been sent through the result channel of an operation. -/
  results : ℕ → List OpResult

/-- The first connection has been made. -/
def QueueState.initial : QueueState where
  closed := false
  signalled := false
  client := true
  queue := []
  sender := .idle
  callers _ := .fresh
  results _ := []

def QueueState.setCaller (s : QueueState) (i : ℕ) (p : CallerPhase) : QueueState :=
  { s with callers := Function.update s.callers i p }

@[simp] theorem QueueState.setCaller_self (s : QueueState) (i : ℕ) (p : CallerPhase) :
    (s.setCaller i p).callers i = p := by
  simp only [setCaller, Function.update_self]

theorem QueueState.setCaller_of_ne {i j : ℕ} (h : j ≠ i) (s : QueueState) (p : CallerPhase) :
    (s.setCaller i p).callers j = s.callers j := by
  simp only [setCaller, Function.update_of_ne h]

/-- Send a result. -/
def QueueState.report (s : QueueState) (i : ℕ) (r : OpResult) : QueueState :=
  { s with results := Function.update s.results i (s.results i ++ [r]) }

@[simp] theorem QueueState.report_self (s : QueueState) (i : ℕ) (r : OpResult) :
    (s.report i r).results i = s.results i ++ [r] := by
  simp only [report, Function.update_self]

theorem QueueState.report_of_ne {i j : ℕ} (h : j ≠ i) (s : QueueState) (r : OpResult) :
    (s.report i r).results j = s.results j := by
  simp only [report, Function.update_of_ne h]

/-- The sender is done with an operation. -/
def QueueState.finish (s : QueueState) (i : ℕ) (r : OpResult) : QueueState :=
  { s.report i r with sender := .idle }

/-! ### Steps -/

inductive CallerEvent where
  /-- `enqueue` looks at the flag. -/
  | check
  /-- `try_send`, or `select` with a default. -/
  | send
  /-- A queue without room hands the operation to a sender that is waiting for one. -/
  | handOver
  /-- The context of the caller is cancelled or past its deadline. -/
  | contextDone
  /-- The result arrives. -/
  | receive
  deriving DecidableEq

inductive CloseEvent where
  | set
  | signal
  deriving DecidableEq

inductive SenderEvent where
  | take
  /-- The context of the operation is done when the operation is taken. -/
  | contextDone
  | begin
  | done (connectionError : Bool)
  | delay
  /-- The context is done, or the client is closed, during a delay. -/
  | cancelDelay
  | closeDelay
  /-- An attempt is not made because the client is closed. -/
  | stop
  | dial (ok : Bool)
  | giveUp
  | shutdown
  | drain
  | exit
  deriving DecidableEq

/-- `reconnect` returns an error. -/
def SenderEvent.endsReconnect : SenderEvent → Bool
  | .cancelDelay | .closeDelay | .stop | .giveUp => true
  | _ => false

inductive QueueEvent where
  | caller (i : ℕ) (e : CallerEvent)
  | close (e : CloseEvent)
  | sender (e : SenderEvent)
  deriving DecidableEq

variable (lib : ClientLib) (cfg : QueueConfig)

/-- `enqueue`. -/
def QueueState.execCaller (s : QueueState) (i : ℕ) : CallerEvent → Option QueueState
  | .check =>
      match s.callers i with
      | .fresh =>
          if lib = .go ∧ s.sender.inReconnect then none
          else some (s.setCaller i (if s.closed then .refused .closed else .checked))
      | _ => none
  | .send =>
      match s.callers i with
      | .checked =>
          if s.queue.length < cfg.queueSize then
            some { s.setCaller i .waiting with queue := s.queue ++ [i] }
          else some (s.setCaller i (.refused .queueFull))
      | _ => none
  | .handOver =>
      match s.callers i, s.sender with
      | .checked, .idle =>
          if cfg.queueSize = 0 ∧ s.signalled = false then
            some { s.setCaller i .waiting with sender := .taken i }
          else none
      | _, _ => none
  | .contextDone =>
      match s.callers i with
      | .checked => some (s.setCaller i (.refused .contextDone))
      | .waiting => some (s.setCaller i (.returned none))
      | _ => none
  | .receive =>
      match s.callers i, s.results i with
      | .waiting, r :: _ => some (s.setCaller i (.returned (some r)))
      | _, _ => none

/-- `close`, up to where it waits for the sender. -/
def QueueState.execClose (s : QueueState) : CloseEvent → Option QueueState
  | .set =>
      if s.closed ∨ lib = .go ∧ s.sender.inReconnect then none
      else some { s with closed := true }
  | .signal =>
      if s.closed ∧ s.signalled = false then some { s with signalled := true } else none

/-- An attempt that has to wait first. -/
def Delays (attempt : ℕ) (delayed : Bool) : Prop :=
  1 < attempt ∧ attempt ≤ cfg.maxRetries ∧ delayed = false

/-- An attempt that can be made. -/
def Dials (attempt : ℕ) (delayed : Bool) : Prop :=
  attempt ≤ cfg.maxRetries ∧ (attempt ≤ 1 ∨ delayed = true)

instance (attempt : ℕ) (delayed : Bool) : Decidable (Delays cfg attempt delayed) :=
  inferInstanceAs (Decidable (_ ∧ _))

instance (attempt : ℕ) (delayed : Bool) : Decidable (Dials cfg attempt delayed) :=
  inferInstanceAs (Decidable (_ ∧ _))

/-- What the delays of a wrapper look at. -/
def QueueState.delayCut (s : QueueState) : Bool :=
  match lib with
  | .rust => s.closed
  | .go => s.signalled

/-- The result of an operation whose reconnect failed: Rust passes the reason on. -/
def ClientLib.reason : ClientLib → OpResult → OpResult
  | .rust, r => r
  | .go, _ => .reconnectFailed

/-- The sender: `sender_loop`, `process_request`, `reconnect` and `drain_queue`. -/
def QueueState.execSender (s : QueueState) : SenderEvent → Option QueueState
  | .take =>
      match s.sender, s.queue with
      | .idle, i :: rest => some { s with sender := .taken i, queue := rest }
      | _, _ => none
  | .contextDone =>
      match s.sender with
      | .taken i => some (s.finish i .contextDone)
      | _ => none
  | .begin =>
      match s.sender with
      | .taken i =>
          if s.client then some { s with sender := .calling i false }
          else
            match lib with
            | .rust => some (s.finish i .closed)
            -- The operation calls a method of a client that is `nil`.
            | .go => some { s with sender := .crashed i }
      | _ => none
  | .done connectionError =>
      match s.sender with
      | .calling i retry =>
          if connectionError ∧ retry = false then some { s with sender := .reconnecting i 1 false }
          else some (s.finish i .outcome)
      | _ => none
  | .delay =>
      match s.sender with
      | .reconnecting i attempt delayed =>
          if Delays cfg attempt delayed then
            some { s with sender := .reconnecting i attempt true }
          else none
      | _ => none
  | .cancelDelay =>
      match s.sender with
      | .reconnecting i attempt delayed =>
          if Delays cfg attempt delayed then
            some (s.finish i (lib.reason .contextDone))
          else none
      | _ => none
  | .closeDelay =>
      match s.sender with
      | .reconnecting i attempt delayed =>
          if Delays cfg attempt delayed ∧ s.delayCut lib then
            some (s.finish i (lib.reason .closed))
          else none
      | _ => none
  | .stop =>
      match s.sender with
      | .reconnecting i attempt delayed =>
          if Dials cfg attempt delayed ∧ lib = .rust ∧ s.closed then some (s.finish i .closed)
          else none
      | _ => none
  | .dial ok =>
      match s.sender with
      | .reconnecting i attempt delayed =>
          if Dials cfg attempt delayed ∧ ¬(lib = .rust ∧ s.closed) then
            -- The old client is closed and forgotten before the attempt.
            if ok then some { s with client := true, sender := .calling i true }
            else some { s with client := false, sender := .reconnecting i (attempt + 1) false }
          else none
      | _ => none
  | .giveUp =>
      match s.sender with
      | .reconnecting i attempt _ =>
          if cfg.maxRetries < attempt then
            some (s.finish i
              (lib.reason (if cfg.maxRetries = 0 then .closed else .reconnectFailed)))
          else none
      | _ => none
  | .shutdown =>
      match s.sender with
      | .idle => if s.signalled then some { s with sender := .draining } else none
      | _ => none
  | .drain =>
      match s.sender, s.queue with
      | .draining, i :: rest => some { s.report i .closed with queue := rest }
      | _, _ => none
  | .exit =>
      match s.sender, s.queue with
      | .draining, [] => some { s with sender := .exited }
      | _, _ => none

def QueueState.exec (s : QueueState) : QueueEvent → Option QueueState
  | .caller i e => s.execCaller lib cfg i e
  | .close e => s.execClose lib e
  | .sender e => s.execSender lib cfg e

/-- The runs and the behaviours of a wrapper. -/
abbrev QueueStep : QueueState → QueueEvent → QueueState → Prop :=
  Steps (QueueState.exec lib cfg)

/-! ### What a step can do -/

/-- How much the sender has still to do before it looks at the queue again. -/
def SenderPhase.work : SenderPhase → ℕ
  | .idle => 1
  | .taken _ => 2 * cfg.maxRetries + 6
  | .calling _ false => 2 * cfg.maxRetries + 5
  | .calling _ true => 2
  | .reconnecting _ attempt delayed =>
      2 * (cfg.maxRetries + 1 - attempt) + if delayed then 3 else 4
  | .draining | .exited | .crashed _ => 0

/-- What a step can do. -/
inductive QueueState.Change (s : QueueState) : QueueEvent → QueueState → Prop
  /-- A caller goes on, with nothing for the sender. -/
  | caller {i : ℕ} {e : CallerEvent} {p : CallerPhase} :
      p.queued = (s.callers i).queued → (∀ r, p = .returned (some r) → r ∈ s.results i) →
      Change s (.caller i e) (s.setCaller i p)
  /-- An operation is accepted. -/
  | accept {i : ℕ} : (s.callers i).queued = false → s.queue.length < cfg.queueSize →
      Change s (.caller i .send) { s.setCaller i .waiting with queue := s.queue ++ [i] }
  | handOver {i : ℕ} : (s.callers i).queued = false → s.sender = .idle → cfg.queueSize = 0 →
      Change s (.caller i .handOver) { s.setCaller i .waiting with sender := .taken i }
  | flags {e : CloseEvent} (closed signalled : Bool) :
      Change s (.close e) { s with closed, signalled }
  /-- The sender goes on with what it has in its hands; it may crash on it. Only a reconnect
  changes the client. -/
  | move {e : SenderEvent} {p : SenderPhase} (client : Bool) : e.endsReconnect = false →
      p.op = s.sender.op → p.work cfg < s.sender.work cfg → p ≠ .exited →
      (∀ i, p = .crashed i → e = .begin ∧ lib = .go ∧ s.client = false ∧ s.sender = .taken i) →
      (client = true ∨ p.inReconnect = true ∨
        client = s.client ∧ s.sender.inReconnect = false) →
      Change s (.sender e) { s with client, sender := p }
  | take {i : ℕ} {rest : List ℕ} : s.sender = .idle → s.queue = i :: rest →
      Change s (.sender .take) { s with sender := .taken i, queue := rest }
  /-- The sender answers the operation in its hands. -/
  | finish {e : SenderEvent} {i : ℕ} (r : OpResult) : s.sender.op = some i →
      1 < s.sender.work cfg → s.sender.inReconnect = e.endsReconnect →
      Change s (.sender e) (s.finish i r)
  /-- The sender answers the first operation of the queue. -/
  | drain {i : ℕ} {rest : List ℕ} : s.sender = .draining → s.queue = i :: rest →
      Change s (.sender .drain) { s.report i .closed with queue := rest }
  /-- The sender stops, and the queue is empty. -/
  | exit : s.sender = .draining → s.queue = [] →
      Change s (.sender .exit) { s with sender := .exited }

variable {lib cfg} {s s' : QueueState}

theorem QueueState.begin_of_client {i : ℕ} (htaken : s.sender = .taken i)
    (hclient : s.client = true) :
    s.execSender lib cfg .begin = some { s with sender := .calling i false } := by
  simp only [execSender, htaken, hclient, if_true]

theorem QueueState.begin_rust {i : ℕ} (htaken : s.sender = .taken i)
    (hclient : s.client = false) :
    s.execSender .rust cfg .begin = some (s.finish i .closed) := by
  simp only [execSender, htaken, hclient, Bool.false_eq_true, if_false]

theorem QueueState.begin_go {i : ℕ} (htaken : s.sender = .taken i)
    (hclient : s.client = false) :
    s.execSender .go cfg .begin = some { s with sender := .crashed i } := by
  simp only [execSender, htaken, hclient, Bool.false_eq_true, if_false]

theorem QueueState.change_caller {i : ℕ} {e : CallerEvent}
    (h : s.execCaller lib cfg i e = some s') : s.Change lib cfg (.caller i e) s' := by
  cases e with
  | check =>
      rw [execCaller] at h
      split at h
      next hfresh =>
        split at h
        · cases h
        · obtain rfl := Option.some.inj h
          refine .caller ?_ ?_
          · rw [hfresh]
            split <;> rfl
          · intro r hr
            split at hr <;> cases hr
      · cases h
  | send =>
      rw [execCaller] at h
      split at h
      next hchecked =>
        split at h
        next hroom =>
          obtain rfl := Option.some.inj h
          exact .accept (by rw [hchecked]; rfl) hroom
        · obtain rfl := Option.some.inj h
          exact .caller (by rw [hchecked]; rfl) fun r hr => by cases hr
      · cases h
  | handOver =>
      rw [execCaller] at h
      split at h
      next hchecked hidle =>
        split at h
        next hsize =>
          obtain rfl := Option.some.inj h
          exact .handOver (by rw [hchecked]; rfl) hidle hsize.1
        · cases h
      · cases h
  | contextDone =>
      rw [execCaller] at h
      split at h
      next hchecked =>
        obtain rfl := Option.some.inj h
        exact .caller (by rw [hchecked]; rfl) fun r hr => by cases hr
      next hwaiting =>
        obtain rfl := Option.some.inj h
        exact .caller (by rw [hwaiting]; rfl) fun r hr => by cases hr
      · cases h
  | receive =>
      rw [execCaller] at h
      split at h
      next r rest hwaiting hresults =>
        obtain rfl := Option.some.inj h
        refine .caller (by rw [hwaiting]; rfl) fun r' hr => ?_
        cases hr
        rw [hresults]
        exact List.mem_cons_self
      · cases h

theorem QueueState.change_close {e : CloseEvent} (h : s.execClose lib e = some s') :
    s.Change lib cfg (.close e) s' := by
  cases e <;> rw [execClose] at h <;> split at h <;> cases h <;> exact .flags _ _

theorem QueueState.change_sender {e : SenderEvent} (h : s.execSender lib cfg e = some s') :
    s.Change lib cfg (.sender e) s' := by
  cases e with
  | take =>
      rw [execSender] at h
      split at h
      next i rest hidle hqueue =>
        obtain rfl := Option.some.inj h
        exact .take hidle hqueue
      · cases h
  | contextDone =>
      rw [execSender] at h
      split at h
      next i htaken =>
        obtain rfl := Option.some.inj h
        exact .finish _ (by rw [htaken]; rfl) (by rw [htaken, SenderPhase.work]; omega)
          (by rw [htaken]; rfl)
      · cases h
  | begin =>
      rw [execSender] at h
      split at h
      next i htaken =>
        split at h
        · obtain rfl := Option.some.inj h
          exact .move s.client rfl (by rw [htaken]; rfl)
            (by rw [htaken, SenderPhase.work, SenderPhase.work]; omega) nofun nofun
            (Or.inr (Or.inr ⟨rfl, by rw [htaken]; rfl⟩))
        next hnone =>
          cases lib with
          | rust =>
              obtain rfl := Option.some.inj h
              exact .finish _ (by rw [htaken]; rfl) (by rw [htaken, SenderPhase.work]; omega)
                (by rw [htaken]; rfl)
          | go =>
              obtain rfl := Option.some.inj h
              exact .move s.client rfl (by rw [htaken]; rfl)
                (by rw [htaken, SenderPhase.work, SenderPhase.work]; omega) nofun
                (fun _ hi => ⟨rfl, rfl, Bool.eq_false_iff.mpr hnone,
                  SenderPhase.crashed.inj hi ▸ htaken⟩)
                (Or.inr (Or.inr ⟨rfl, by rw [htaken]; rfl⟩))
      · cases h
  | done connectionError =>
      rw [execSender] at h
      split at h
      next i retry hcalling =>
        split at h
        next hagain =>
          obtain ⟨-, rfl⟩ := hagain
          obtain rfl := Option.some.inj h
          refine .move s.client rfl (by rw [hcalling]; rfl) ?_ nofun nofun (Or.inr (Or.inl rfl))
          simp only [hcalling, SenderPhase.work, Bool.false_eq_true, if_false]
          omega
        · obtain rfl := Option.some.inj h
          refine .finish _ (by rw [hcalling]; rfl) ?_ (by rw [hcalling]; rfl)
          rw [hcalling]
          cases retry <;> rw [SenderPhase.work] <;> omega
      · cases h
  | delay =>
      rw [execSender] at h
      split at h
      next i attempt delayed hreconnecting =>
        split at h
        next hdelays =>
          obtain ⟨-, -, rfl⟩ := hdelays
          obtain rfl := Option.some.inj h
          refine .move s.client rfl (by rw [hreconnecting]; rfl) ?_ nofun nofun (Or.inr (Or.inl rfl))
          simp [hreconnecting, SenderPhase.work]
        · cases h
      · cases h
  | cancelDelay | closeDelay | stop | giveUp =>
      rw [execSender] at h
      split at h
      next i attempt delayed hreconnecting =>
        split at h
        · obtain rfl := Option.some.inj h
          refine .finish _ (by rw [hreconnecting]; rfl) ?_ (by rw [hreconnecting]; rfl)
          rw [hreconnecting, SenderPhase.work]
          split <;> omega
        · cases h
      · cases h
  | dial ok =>
      rw [execSender] at h
      split at h
      next i attempt delayed hreconnecting =>
        split at h
        next hdials =>
          have hattempt := hdials.1.1
          split at h
          · obtain rfl := Option.some.inj h
            refine .move true rfl (by rw [hreconnecting]; rfl) ?_ nofun nofun (Or.inl rfl)
            rw [hreconnecting, SenderPhase.work, SenderPhase.work]
            split <;> omega
          · obtain rfl := Option.some.inj h
            refine .move false rfl (by rw [hreconnecting]; rfl) ?_ nofun nofun (Or.inr (Or.inl rfl))
            simp only [hreconnecting, SenderPhase.work, Bool.false_eq_true, if_false]
            split <;> omega
        · cases h
      · cases h
  | shutdown =>
      rw [execSender] at h
      split at h
      next hidle =>
        split at h
        · obtain rfl := Option.some.inj h
          exact .move s.client rfl (by rw [hidle]; rfl)
            (by rw [hidle, SenderPhase.work, SenderPhase.work]; omega) nofun nofun
            (Or.inr (Or.inr ⟨rfl, by rw [hidle]; rfl⟩))
        · cases h
      · cases h
  | drain =>
      rw [execSender] at h
      split at h
      next i rest hdraining hqueue =>
        obtain rfl := Option.some.inj h
        exact .drain hdraining hqueue
      · cases h
  | exit =>
      rw [execSender] at h
      split at h
      next hdraining hqueue =>
        obtain rfl := Option.some.inj h
        exact .exit hdraining hqueue
      · cases h

/-- **What a step can do.** -/
theorem QueueState.change {e : QueueEvent} (h : QueueStep lib cfg s e s') :
    s.Change lib cfg e s' := by
  cases e with
  | caller i e => exact change_caller h
  | close e => exact change_close h
  | sender e => exact change_sender h

end Cxdb
