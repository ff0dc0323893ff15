import Cxdb.Clients

/-!
# Reconnecting Clients

`reconnect.rs` of the Rust client and `reconnect.go`: a worker takes operations from a
queue and makes one request for each. After a connection error it drops the connection,
dials again up to `max_retries` times, and makes the request once more on the new
connection. Which errors are connection errors is decided by `is_connection_error`, and a
connection on which a call failed otherwise is kept.

## Main results

* `response_matching`: a call that succeeds returns the response to its own request, in
  every run in which calls begin on a quiet connection.
* `response_matching_stale`: without that, a call can return the late response to an
  earlier one: the clients never compare the `req_id` of a response.
-/

open ByteFormat Transition

namespace Cxdb

/-! ### The worker -/

variable {ε : Type}

/-- The request that an operation makes. -/
structure Operation where
  msgType : UInt16
  flags : UInt16
  payload : Bytes

/-- What the worker is at. An operation that has not `begun` has not called
`send_request` yet. -/
inductive Worker where
  | idle
  /-- The operation runs, for the first time or after a reconnect. -/
  | calling (retry : Bool) (op : Operation) (begun : Bool)
  /-- The loop of `reconnect` before attempt `attempt`. -/
  | reconnecting (attempt : ℕ) (op : Operation)
  /-- The handshake of a new connection; there is no operation behind the first one. -/
  | hello (attempt : ℕ) (op : Option Operation) (begun : Bool)

/-- The wrapper: its client, the connections it has dropped, and its worker. -/
structure Reconnecting (ε : Type) where
  client : Option (Client ε)
  dropped : List (Client ε)
  worker : Worker
  closed : Bool

/-- The first connection has been made. -/
def Reconnecting.initial : Reconnecting ε :=
  { client := some Client.fresh, dropped := [], worker := .hello 0 none false, closed := false }

/-- The options of the wrapper, and the payload of its handshakes. -/
structure ReconnectConfig where
  maxRetries : ℕ
  hello : Bytes

/-- Close the client and forget it. -/
def Reconnecting.drop (r : Reconnecting ε) : Reconnecting ε :=
  { r with client := none, dropped := r.dropped ++ r.client.toList }

/-- What follows when the operation or the handshake has ended, with an error or not:
`process_request` and the end of the loop body of `reconnect`. -/
def Reconnecting.ended (api : Api ε) (r : Reconnecting ε) (err : Option ε) : Reconnecting ε :=
  match r.worker with
  | .calling retry op _ =>
      if retry = false ∧ err.any api.isConnectionError = true then
        { r with worker := .reconnecting 1 op }
      else { r with worker := .idle }
  | .hello attempt op _ =>
      match err with
      | none => { r with worker := op.elim .idle fun op => .calling true op false }
      | some _ =>
          { r.drop with worker := op.elim .idle fun op => .reconnecting (attempt + 1) op }
  | _ => r

inductive ReconnectEvent (ε : Type) where
  /-- The worker takes an operation from the queue. -/
  | process (op : Operation)
  /-- The operation or the handshake calls `send_request`. -/
  | begin
  /-- Its call is refused before the first byte. -/
  | refuse (e : ε)
  /-- The call goes on, or the server does. -/
  | client (e : ClientEvent ε)
  /-- The call has returned; a frame may still be found to be of the wrong form. -/
  | done (invalid : Option ε)
  /-- A new connection is made. -/
  | dial
  /-- No connection can be made. -/
  | dialFail
  /-- `reconnect` returns an error. -/
  | giveUp
  /-- The wrapper is closed. -/
  | close

/-- An event that is neither the beginning of a call nor the end of the client. -/
def ClientEvent.proceeds : ClientEvent ε → Bool
  | .call _ _ _ | .close => false
  | _ => true

/-- The wrapper, step by step. -/
def Reconnecting.exec (api : Api ε) (decode : Decoding) (cfg : ReconnectConfig)
    (r : Reconnecting ε) : ReconnectEvent ε → Option (Reconnecting ε)
  | .process op =>
      match r.worker, r.client with
      | .idle, some _ => some { r with worker := .calling false op false }
      | _, _ => none
  | .begin =>
      match r.worker, r.client with
      | .calling retry op false, some c =>
          (c.exec api decode (.call op.msgType op.flags op.payload)).map fun c =>
            { r with client := some c, worker := .calling retry op true }
      | .hello attempt op false, some c =>
          (c.exec api decode (.call msgHello 0 cfg.hello)).map fun c =>
            { r with client := some c, worker := .hello attempt op true }
      | _, _ => none
  | .refuse e =>
      match r.worker with
      | .calling _ _ false | .hello _ _ false => some (r.ended api (some e))
      | _ => none
  | .client e =>
      match r.client with
      | some c =>
          if e.proceeds then (c.exec api decode e).map fun c => { r with client := some c }
          else none
      | none => none
  | .done invalid =>
      match r.worker, r.client with
      | .calling _ _ true, some c | .hello _ _ true, some c =>
          match c.phase, c.results.getLast? with
          | .idle, some result =>
              match result.outcome with
              | .error e => some (r.ended api (some e))
              | .ok _ => some (r.ended api invalid)
          | _, _ => none
      | _, _ => none
  | .dial =>
      match r.worker with
      | .reconnecting attempt op =>
          if attempt ≤ cfg.maxRetries ∧ ¬(api.stopsWhenClosed = true ∧ r.closed = true) then
            some { r.drop with
              client := some Client.fresh, worker := .hello attempt (some op) false }
          else none
      | _ => none
  | .dialFail =>
      match r.worker with
      | .reconnecting attempt op =>
          if attempt ≤ cfg.maxRetries ∧ ¬(api.stopsWhenClosed = true ∧ r.closed = true) then
            some { r.drop with worker := .reconnecting (attempt + 1) op }
          else none
      | _ => none
  | .giveUp =>
      match r.worker with
      | .reconnecting attempt _ =>
          -- The retries are used up, or the wait before the next one is cut short.
          if cfg.maxRetries < attempt ∨ 1 < attempt ∨
              (api.stopsWhenClosed = true ∧ r.closed = true) then
            some { r with worker := .idle }
          else none
      | _ => none
  | .close => some { r with closed := true }

/-- No call begins while a request of an earlier one is on its way or being served, or its
response is unread. -/
def Reconnecting.BeginsQuiet (r : Reconnecting ε) : ReconnectEvent ε → Prop
  | .begin => ∀ c ∈ r.client, c.wire.quiet
  | _ => True

instance (r : Reconnecting ε) (e : ReconnectEvent ε) : Decidable (r.BeginsQuiet e) := by
  cases e <;> unfold Reconnecting.BeginsQuiet <;> infer_instance

/-- Every call that succeeded returned its own response, on every connection so far. -/
def Reconnecting.Matched (r : Reconnecting ε) : Prop :=
  (∀ c ∈ r.client, c.Matched) ∧ ∀ c ∈ r.dropped, c.Matched

instance (r : Reconnecting ε) : Decidable r.Matched :=
  inferInstanceAs (Decidable ((∀ c ∈ r.client, c.Matched) ∧ ∀ c ∈ r.dropped, c.Matched))

/-! ### The invariant -/

/-- What holds of the clients of a wrapper whose calls begin on a quiet connection. -/
structure Reconnecting.Invariant (r : Reconnecting ε) : Prop where
  client : ∀ c ∈ r.client, c.Invariant
  dropped : ∀ c ∈ r.dropped, c.Invariant

variable {r r' : Reconnecting ε}

theorem Reconnecting.Invariant.drop (h : r.Invariant) : r.drop.Invariant where
  client := fun _ hc => by cases hc
  dropped := by
    intro c hc
    rcases List.mem_append.mp hc with hold | hnew
    · exact h.dropped c hold
    · exact h.client c (Option.mem_toList.mp hnew)

/-- What the worker does next leaves the connections or drops the present one. -/
theorem Reconnecting.Invariant.ended (h : r.Invariant) (api : Api ε) (err : Option ε) :
    (r.ended api err).Invariant := by
  unfold Reconnecting.ended
  split
  · split <;> exact ⟨h.client, h.dropped⟩
  · split
    · exact ⟨h.client, h.dropped⟩
    · exact ⟨h.drop.client, h.drop.dropped⟩
  · exact h

/-- A step of the client. -/
theorem Reconnecting.Invariant.step {api : Api ε} {decode : Decoding} {c c' : Client ε}
    {e : ClientEvent ε} (h : r.Invariant) (hc : r.client = some c) (hquiet : c.BeginsQuiet e)
    (he : c.exec api decode e = some c') (worker : Worker) :
    Reconnecting.Invariant { r with client := some c', worker } where
  client := by
    rintro _ ⟨⟩
    exact (h.client c hc).exec hquiet he
  dropped := h.dropped

/-- A call that begins on a quiet connection. -/
theorem Reconnecting.Invariant.begin {api : Api ε} {decode : Decoding} {c c' : Client ε}
    {msgType flags : UInt16} {payload : Bytes} (h : r.Invariant) (hc : r.client = some c)
    (hquiet : c.wire.quiet) (he : c.exec api decode (.call msgType flags payload) = some c')
    (worker : Worker) : Reconnecting.Invariant { r with client := some c', worker } := by
  have hbegins : c.BeginsQuiet (.call msgType flags payload) := hquiet
  exact h.step hc hbegins he worker

/-- **What a step of the wrapper preserves.** -/
theorem Reconnecting.Invariant.exec {api : Api ε} {decode : Decoding} {cfg : ReconnectConfig}
    {e : ReconnectEvent ε} (h : r.Invariant) (hquiet : r.BeginsQuiet e)
    (he : r.exec api decode cfg e = some r') : r'.Invariant := by
  cases e with
  | process op =>
      rw [Reconnecting.exec] at he
      split at he
      · obtain rfl := Option.some.inj he
        exact ⟨h.client, h.dropped⟩
      · cases he
  | begin =>
      rw [Reconnecting.exec] at he
      split at he
      next retry op c hworker hc =>
        obtain ⟨c', hstep, rfl⟩ := Option.map_eq_some_iff.mp he
        exact h.begin hc (hquiet c hc) hstep _
      next attempt op c hworker hc =>
        obtain ⟨c', hstep, rfl⟩ := Option.map_eq_some_iff.mp he
        exact h.begin hc (hquiet c hc) hstep _
      · cases he
  | refuse e =>
      rw [Reconnecting.exec] at he
      split at he
      all_goals first
        | cases he; done
        | obtain rfl := Option.some.inj he
          exact h.ended api _
  | client e =>
      rw [Reconnecting.exec] at he
      split at he
      next c hc =>
        split at he
        next hproceeds =>
          obtain ⟨c', hstep, rfl⟩ := Option.map_eq_some_iff.mp he
          have hbegins : c.BeginsQuiet e := by
            cases e with
            | call => cases hproceeds
            | _ => trivial
          exact h.step hc hbegins hstep r.worker
        · cases he
      · cases he
  | done invalid =>
      rw [Reconnecting.exec] at he
      repeat' split at he
      all_goals first
        | cases he; done
        | obtain rfl := Option.some.inj he
          exact h.ended api _
  | dial =>
      rw [Reconnecting.exec] at he
      split at he
      · split at he
        · obtain rfl := Option.some.inj he
          refine ⟨?_, h.drop.dropped⟩
          rintro _ ⟨⟩
          exact Client.Invariant.fresh
        · cases he
      · cases he
  | dialFail =>
      rw [Reconnecting.exec] at he
      split at he
      · split at he
        · obtain rfl := Option.some.inj he
          exact ⟨h.drop.client, h.drop.dropped⟩
        · cases he
      · cases he
  | giveUp =>
      rw [Reconnecting.exec] at he
      split at he
      · split at he
        · obtain rfl := Option.some.inj he
          exact ⟨h.client, h.dropped⟩
        · cases he
      · cases he
  | close =>
      obtain rfl := Option.some.inj he
      exact ⟨h.client, h.dropped⟩

/-! ### Runs -/

/-- The plain client, in every run whose calls begin on a quiet connection. -/
theorem Client.matched_of_run {api : Api ε} {decode : Decoding} {es : List (ClientEvent ε)}
    {c : Client ε}
    (h : Run (Guarded Client.BeginsQuiet (Steps (Client.exec api decode))) Client.fresh es c) :
    c.Matched := by
  have hinv : c.Invariant := h.invariant (I := fun _ c => c.Invariant) Client.Invariant.fresh
    fun _ _ _ _ hi hs => hi.exec hs.1 hs.2
  exact hinv.matched

/-- The wrapper, in every such run. -/
theorem Reconnecting.matched_of_run {api : Api ε} {decode : Decoding} {cfg : ReconnectConfig}
    {es : List (ReconnectEvent ε)} {r : Reconnecting ε}
    (h : Run (Guarded Reconnecting.BeginsQuiet (Steps (Reconnecting.exec api decode cfg)))
      Reconnecting.initial es r) : r.Matched := by
  have hinv : r.Invariant := h.invariant (I := fun _ r => r.Invariant)
    ⟨by rintro _ ⟨⟩; exact Client.Invariant.fresh, fun _ hc => absurd hc List.not_mem_nil⟩
    fun _ _ _ _ hi hs => hi.exec hs.1 hs.2
  exact ⟨fun c hc => (hinv.client c hc).matched, fun c hc => (hinv.dropped c hc).matched⟩

/-- **Response matching**, for the clients and for the wrappers around them. A call that
succeeds returns the response to its own request, when no call begins on a connection where
an earlier request, its response or a part of either is still on its way. -/
theorem response_matching (lower : String → String) (decode : Decoding) :
    (∀ es c, Run (Guarded Client.BeginsQuiet (Steps (Client.exec (rustApi lower) decode)))
      Client.fresh es c → c.Matched) ∧
    (∀ es c, Run (Guarded Client.BeginsQuiet (Steps (Client.exec (goApi lower) decode)))
      Client.fresh es c → c.Matched) ∧
    (∀ cfg es r, Run (Guarded Reconnecting.BeginsQuiet
      (Steps (Reconnecting.exec (rustApi lower) decode cfg))) Reconnecting.initial es r →
      r.Matched) ∧
    ∀ cfg es r, Run (Guarded Reconnecting.BeginsQuiet
      (Steps (Reconnecting.exec (goApi lower) decode cfg))) Reconnecting.initial es r →
      r.Matched :=
  ⟨fun _ _ => Client.matched_of_run, fun _ _ => Client.matched_of_run,
    fun _ _ _ => Reconnecting.matched_of_run, fun _ _ _ => Reconnecting.matched_of_run⟩

/-! ### Examples -/

/-- `to_lowercase` on ASCII. -/
def asciiLower (s : String) : String := String.ofList (s.toList.map Char.toLower)

/-- Ask for the head of context 0: the call begins and writes its request. -/
def askHead : List (ClientEvent ε) := [.call 4 0 (List.replicate 8 0), .write 24]

/-- The server reads a request and answers with an empty payload; the call reads the answer. -/
def answer (msgType : UInt16) : List (ClientEvent ε) :=
  [.receive, .respond msgType 0 [], .read 4, .read 12, .finish]

/-- The text of a read that has run into its deadline on Linux, where its kind is
`WouldBlock`. -/
def deadlineError : ClientError := .io .other "Resource temporarily unavailable (os error 11)"

/-- Whether the last call succeeded. -/
def Client.succeeded (c : Client ε) : Bool :=
  c.results.getLast?.any fun r => r.outcome.isOk

set_option maxRecDepth 4000 in
/-- Two calls on a quiet connection. -/
theorem response_matching_twoCalls :
    ∃ es c, Run (Guarded Client.BeginsQuiet (Steps (Client.exec (rustApi asciiLower) fun _ => "")))
      Client.fresh es c ∧ c.succeeded = true ∧ c.Matched := by
  obtain ⟨c, hrun, hok⟩ := exists_run_of_foldlM Client.BeginsQuiet
    (Client.exec (rustApi asciiLower) fun _ => "") Client.fresh
    (askHead ++ answer 4 ++ (askHead ++ answer 4)) (fun c => c.succeeded = true)
    (by decide)
  exact ⟨_, c, hrun, hok, (response_matching asciiLower fun _ => "").1 _ c hrun⟩

/-- A call that runs into its deadline, and the next one on the same connection: the server
answers the first request when the second is already waiting. -/
def lateResponse (e : ε) : List (ClientEvent ε) :=
  askHead ++ [.fail e] ++ (askHead ++ answer 4)

/-- The same with the Rust wrapper, after the handshake. -/
def lateResponseWrapped : List (ReconnectEvent ClientError) :=
  let op : Operation := ⟨4, 0, List.replicate 8 0⟩
  [.begin, .client (.write 16)] ++ (answer 1).map .client ++ [.done none] ++
    [.process op, .begin, .client (.write 24), .client (.fail deadlineError), .done none] ++
    [.process op, .begin, .client (.write 24)] ++ (answer 4).map .client

set_option maxRecDepth 4000 in
/-- A call can return the late response to an earlier one, on the Rust client, on the Go
client and through the Rust wrapper. -/
theorem response_matching_stale :
    (¬∀ es c, Run (Steps (Client.exec (rustApi asciiLower) fun _ => "")) Client.fresh es c →
      c.Matched) ∧
    (¬∀ es c, Run (Steps (Client.exec (goApi asciiLower) fun _ => "")) Client.fresh es c →
      c.Matched) ∧
    ¬∀ cfg es r, Run (Steps (Reconnecting.exec (rustApi asciiLower) (fun _ => "") cfg))
      Reconnecting.initial es r → r.Matched := by
  refine ⟨fun hall => ?_, fun hall => ?_, fun hall => ?_⟩
  · obtain ⟨c, hrun, hnot⟩ := exists_run_of_foldlM (fun _ _ => True)
      (Client.exec (rustApi asciiLower) fun _ => "") Client.fresh (lateResponse deadlineError)
      (fun c => ¬c.Matched) (by decide)
    exact hnot (hall _ c hrun.of_guarded)
  · obtain ⟨c, hrun, hnot⟩ := exists_run_of_foldlM (fun _ _ => True)
      (Client.exec (goApi asciiLower) fun _ => "") Client.fresh
      (lateResponse (.opError (some .netError))) (fun c => ¬c.Matched) (by decide)
    exact hnot (hall _ c hrun.of_guarded)
  · obtain ⟨r, hrun, hnot⟩ := exists_run_of_foldlM (fun _ _ => True)
      (Reconnecting.exec (rustApi asciiLower) (fun _ => "") ⟨5, []⟩) Reconnecting.initial
      lateResponseWrapped (fun r => ¬r.Matched) (by decide)
    exact hnot (hall _ _ r hrun.of_guarded)

end Cxdb
