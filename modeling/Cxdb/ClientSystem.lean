import Cxdb.Frames
import Cxdb.Transition

/-!
# Clients on a Connection

`client.rs` of the Rust client and `client.go`: one connection, on which a call writes a
request and reads the next frame that comes back. The lock of the client makes the calls of
its users one sequence. The other end is any server that reads whole frames in order and
answers each with a frame of its `req_id`, after any delay.

A call is made of steps, as the bytes travel: it writes some of what is left to write, it
reads some of what has arrived and is still missing of the frame, and at any point it may
fail, with an expired deadline or any other error. Bytes that it has read by then are gone,
and bytes that it has written stay on their way. A call that is refused before its first
byte (client closed, request cancelled, deadline passed) changes nothing and is no step.

The two clients differ in their errors and in the bound on a frame that only the Rust one
checks; `Api` holds the differences.

## Main results

* `Client.Invariant.exec`: what a step preserves when calls begin on a quiet connection.
* `Client.Invariant.matched`: then what a call returns is the response to its request.
-/

open ByteFormat Transition

namespace Cxdb

/-- `MSG_HELLO`. -/
def msgHello : UInt16 := 1

/-- `MSG_ERROR`. -/
def msgError : UInt16 := 255

/-! ### The connection -/

/-- The two directions of a connection and the server at its other end, with the answers
that the server has given: a request as the server read it, and its response. -/
structure Wire where
  toServer : Bytes
  serving : Option Frame
  toClient : Bytes
  served : List (Frame × Frame)

def Wire.fresh : Wire := { toServer := [], serving := none, toClient := [], served := [] }

/-- Nothing is on its way and nothing is being served. -/
def Wire.quiet (w : Wire) : Prop :=
  w.toServer = [] ∧ w.serving = none ∧ w.toClient = []

instance (w : Wire) : Decidable w.quiet :=
  inferInstanceAs (Decidable (_ ∧ _ ∧ _))

/-- The server reads the next request. -/
def Wire.receive (w : Wire) : Option Wire :=
  match w.serving, takeFrame w.toServer with
  | none, some (request, rest) =>
      if request.header.len ≤ maxFrameSize then
        some { w with toServer := rest, serving := some request }
      else none
  | _, _ => none

/-- The server answers the request it has read. -/
def Wire.respond (w : Wire) (msgType flags : UInt16) (payload : Bytes) : Option Wire :=
  match w.serving with
  | none => none
  | some request =>
      let response := Frame.make msgType flags request.header.reqId payload
      some { w with
        serving := none
        toClient := w.toClient ++ response.bytes
        served := w.served ++ [(request, response)] }

/-! ### The client -/

variable {ε : Type}

/-- What the clients do differently: their errors, the lengths that `read_frame` rejects,
and what their reconnecting wrappers make of an error and of being closed. -/
structure Api (ε : Type) where
  tooLarge : UInt32 → Option ε
  server : UInt32 → String → ε
  isConnectionError : ε → Bool
  stopsWhenClosed : Bool

/-- Where the client is in a call. The call remembers how many requests had been answered
when it began. -/
inductive Phase where
  | idle
  | writing (request : Frame) (before : ℕ) (left : Bytes)
  | reading (request : Frame) (before : ℕ) (got : Bytes)
  deriving DecidableEq

/-- A call that has returned. -/
structure CallRecord (ε : Type) where
  request : Frame
  before : ℕ
  outcome : Except ε Frame

/-- A client, its connection and the calls that have returned. -/
structure Client (ε : Type) where
  wire : Wire
  reqId : UInt64
  closed : Bool
  phase : Phase
  results : List (CallRecord ε)

/-- A client whose connection has just been made. -/
def Client.fresh : Client ε :=
  { wire := Wire.fresh, reqId := 0, closed := false, phase := .idle, results := [] }

/-- The text of an error frame: `from_utf8_lossy` in Rust; a Go string keeps the bytes. -/
abbrev Decoding := Bytes → String

/-- `parse_server_error`: the code and the detail of an error frame. -/
def parseServerError (decode : Decoding) (payload : Bytes) : UInt32 × String :=
  match takeU32 payload with
  | none => (0, "unknown error")
  | some (code, rest) =>
    match takeU32 rest with
    | none => (0, "unknown error")
    | some (detailLen, rest) =>
        (code, if detailLen.toNat ≤ rest.length then decode (rest.take detailLen.toNat) else "")

/-- The error that `read_frame` gives once it knows the length. -/
def Api.rejects (api : Api ε) (got : Bytes) : Option ε :=
  (takeU32 got).bind fun p => api.tooLarge p.1

/-- The bytes that `read_frame` still asks for. -/
def Api.missing (api : Api ε) (got : Bytes) : ℕ :=
  match takeU32 got with
  | none => 4 - got.length
  | some (len, _) =>
      if (api.tooLarge len).isSome then 0
      else if got.length < 16 then 16 - got.length
      else 16 + len.toNat - got.length

/-- What a call returns for the frame it has read. -/
def Api.outcome (api : Api ε) (decode : Decoding) (frame : Frame) : Except ε Frame :=
  if frame.header.msgType = msgError then
    let (code, detail) := parseServerError decode frame.payload
    .error (api.server code detail)
  else .ok frame

/-! ### Steps -/

inductive ClientEvent (ε : Type) where
  /-- A call begins. -/
  | call (msgType flags : UInt16) (payload : Bytes)
  /-- The call writes `n` bytes. -/
  | write (n : ℕ)
  /-- The call reads `n` bytes. -/
  | read (n : ℕ)
  /-- The call has its frame and returns. -/
  | finish
  /-- A write or a read of the call fails, and the call with it. -/
  | fail (e : ε)
  /-- The client is closed. -/
  | close
  /-- The server reads a request. -/
  | receive
  /-- The server answers it. -/
  | respond (msgType flags : UInt16) (payload : Bytes)

/-- The call that returns with `outcome`. -/
def Client.return (c : Client ε) (request : Frame) (before : ℕ) (outcome : Except ε Frame) :
    Client ε :=
  { c with phase := .idle, results := c.results ++ [{ request, before, outcome }] }

/-- `send_request` and the server, step by step. -/
def Client.exec (api : Api ε) (decode : Decoding) (c : Client ε) :
    ClientEvent ε → Option (Client ε)
  | .call msgType flags payload =>
      match c.phase with
      | .idle =>
          if c.closed then none
          else
            let reqId := c.reqId + 1
            let request := Frame.make msgType flags reqId payload
            some { c with
              reqId, phase := .writing request c.wire.served.length request.bytes }
      | _ => none
  | .write n =>
      match c.phase with
      | .writing request before left =>
          if 0 < n ∧ n ≤ left.length then
            some { c with
              wire := { c.wire with toServer := c.wire.toServer ++ left.take n }
              phase :=
                if n = left.length then .reading request before []
                else .writing request before (left.drop n) }
          else none
      | _ => none
  | .read n =>
      match c.phase with
      | .reading request before got =>
          if 0 < n ∧ n ≤ api.missing got ∧ n ≤ c.wire.toClient.length then
            some { c with
              wire := { c.wire with toClient := c.wire.toClient.drop n }
              phase := .reading request before (got ++ c.wire.toClient.take n) }
          else none
      | _ => none
  | .finish =>
      match c.phase with
      | .reading request before got =>
          match takeFrame got with
          | some (frame, []) => some (c.return request before (api.outcome decode frame))
          | _ => none
      | _ => none
  | .fail e =>
      match c.phase with
      | .idle => none
      | .writing request before _ => some (c.return request before (.error e))
      | .reading request before got =>
          some (c.return request before (.error ((api.rejects got).getD e)))
  | .close =>
      match c.phase with
      | .idle => some { c with closed := true }
      | _ => none
  | .receive => c.wire.receive.map fun wire => { c with wire }
  | .respond msgType flags payload =>
      (c.wire.respond msgType flags payload).map fun wire => { c with wire }

/-- No call begins while a request of an earlier one is on its way or being served, or its
response is unread. -/
def Client.BeginsQuiet (c : Client ε) : ClientEvent ε → Prop
  | .call _ _ _ => c.wire.quiet
  | _ => True

instance (c : Client ε) (e : ClientEvent ε) : Decidable (c.BeginsQuiet e) := by
  cases e <;> unfold Client.BeginsQuiet <;> infer_instance

/-! ### What a call should return -/

/-- A frame that a call returns is the server's response to the request of the call, given
after the call began, and has its `req_id`. -/
def CallRecord.Matched (r : CallRecord ε) (served : List (Frame × Frame)) : Prop :=
  match r.outcome with
  | .error _ => True
  | .ok frame =>
      frame.header.reqId = r.request.header.reqId ∧
        ∃ p ∈ served.drop r.before, p.1 = r.request.taken ∧ frame = p.2.taken

instance (r : CallRecord ε) (served : List (Frame × Frame)) : Decidable (r.Matched served) := by
  unfold CallRecord.Matched
  split <;> infer_instance

/-- Every call of the client that succeeded returned its own response. -/
def Client.Matched (c : Client ε) : Prop :=
  ∀ r ∈ c.results, r.Matched c.wire.served

instance (c : Client ε) : Decidable c.Matched :=
  inferInstanceAs (Decidable (∀ r ∈ c.results, _))

/-! ### The invariant -/

/-- How far a call has got that has `left` to write and has read `got`. -/
inductive Wire.InFlight (w : Wire) (request : Frame) (before : ℕ) (left got : Bytes) : Prop
  /-- The server has not read the request yet. -/
  | sending : w.served.length = before → w.serving = none → w.toClient = [] → got = [] →
      w.toServer ++ left = request.bytes → InFlight w request before left got
  /-- The server has read it and not answered yet. -/
  | serving : w.served.length = before → w.serving = some request.taken → w.toClient = [] →
      got = [] → InFlight w request before left got
  /-- The server has answered it, and the response is what comes first. -/
  | served (response : Frame) (more : Bytes) :
      w.served[before]? = some (request.taken, response) →
      got ++ w.toClient = response.bytes ++ more → InFlight w request before left got

/-- What holds of the call in progress. -/
def Phase.Holds (w : Wire) : Phase → Prop
  | .idle => True
  | .writing request before left =>
      request.header.len.toNat ≤ request.payload.length ∧ w.InFlight request before left []
  | .reading request before got =>
      request.header.len.toNat ≤ request.payload.length ∧ w.InFlight request before [] got

/-- What holds of a client whose calls begin on a quiet connection. -/
structure Client.Invariant (c : Client ε) : Prop where
  answers : ∀ p ∈ c.wire.served, p.2.header.reqId = p.1.header.reqId ∧
    p.2.header.len.toNat ≤ p.2.payload.length
  phase : c.phase.Holds c.wire
  matched : c.Matched

theorem Client.Invariant.fresh : (Client.fresh : Client ε).Invariant :=
  ⟨fun _ h => absurd h List.not_mem_nil, trivial, fun _ h => absurd h List.not_mem_nil⟩

/-- More answers do not undo a match. -/
theorem CallRecord.Matched.append {r : CallRecord ε} {served : List (Frame × Frame)}
    (h : r.Matched served) (more : List (Frame × Frame)) : r.Matched (served ++ more) := by
  unfold CallRecord.Matched at h ⊢
  split at h
  · trivial
  · obtain ⟨hid, p, hp, hfirst, hframe⟩ := h
    refine ⟨hid, p, ?_, hfirst, hframe⟩
    rw [List.drop_append]
    exact List.mem_append_left _ hp

variable {c c' : Client ε} {w w' : Wire} {request : Frame} {before : ℕ} {left got : Bytes}

/-- A request that the server reads while a call is in progress is the one of the call. -/
theorem Wire.InFlight.receive (hlen : request.header.len.toNat ≤ request.payload.length)
    (h : w.InFlight request before left got) (hw : w.receive = some w') :
    w'.InFlight request before left got := by
  unfold Wire.receive at hw
  split at hw
  next q rest hserving htake =>
    split at hw
    · obtain rfl := Option.some.inj hw
      cases h with
      | sending hbefore _ hclient hgot hsent =>
          refine .serving hbefore ?_ hclient hgot
          have hwhole := takeFrame_append htake left
          have hfirst := takeFrame_bytes hlen []
          rw [hsent] at hwhole
          rw [List.append_nil, hwhole] at hfirst
          rw [(Prod.mk.inj (Option.some.inj hfirst)).1]
      | serving _ hserving' => rw [hserving] at hserving'; cases hserving'
      | served response more hserved hgot => exact .served response more hserved hgot
    · cases hw
  · cases hw

/-- The first answer that the server gives during a call is the response to the call. -/
theorem Wire.InFlight.respond {msgType flags : UInt16} {payload : Bytes}
    (h : w.InFlight request before left got) (hw : w.respond msgType flags payload = some w') :
    w'.InFlight request before left got := by
  unfold Wire.respond at hw
  split at hw
  · cases hw
  next q hserving =>
    obtain rfl := Option.some.inj hw
    cases h with
    | sending _ hnone => rw [hnone] at hserving; cases hserving
    | serving hbefore hq hclient hgot =>
        obtain rfl := Option.some.inj (hserving.symm.trans hq)
        refine .served (Frame.make msgType flags request.taken.header.reqId payload) [] ?_ ?_
        · subst hbefore
          exact List.getElem?_concat_length
        · dsimp only
          rw [hgot, hclient, List.nil_append, List.nil_append, List.append_nil]
    | served response more hserved hgot =>
        refine .served response
          (more ++ (Frame.make msgType flags q.header.reqId payload).bytes) ?_ ?_
        · rw [List.getElem?_append_left (List.getElem?_eq_some_iff.mp hserved).1, hserved]
        · dsimp only
          rw [← List.append_assoc, hgot, List.append_assoc]

/-- Bytes that the call writes join the ones on their way. -/
theorem Wire.InFlight.write (h : w.InFlight request before left []) (n : ℕ) :
    { w with toServer := w.toServer ++ left.take n }.InFlight request before (left.drop n) [] := by
  cases h with
  | sending hbefore hserving hclient hgot hsent =>
      refine .sending hbefore hserving hclient hgot ?_
      rw [List.append_assoc, List.take_append_drop, hsent]
  | serving hbefore hserving hclient hgot => exact .serving hbefore hserving hclient hgot
  | served response more hserved hgot => exact .served response more hserved hgot

/-- Bytes that the call reads leave the ones that have arrived. -/
theorem Wire.InFlight.read {n : ℕ} (h : w.InFlight request before [] got) (hn : 0 < n)
    (hle : n ≤ w.toClient.length) :
    { w with toClient := w.toClient.drop n }.InFlight request before []
      (got ++ w.toClient.take n) := by
  cases h with
  | sending _ _ hclient _ _ | serving _ _ hclient _ =>
      rw [hclient, List.length_nil] at hle
      omega
  | served response more hserved hgot =>
      refine .served response more hserved ?_
      rw [List.append_assoc, List.take_append_drop, hgot]

/-- **The frame that a call has read is its response.** -/
theorem Wire.InFlight.finish {frame : Frame} (hanswers : ∀ p ∈ w.served,
      p.2.header.reqId = p.1.header.reqId ∧ p.2.header.len.toNat ≤ p.2.payload.length)
    (h : w.InFlight request before [] got) (htake : takeFrame got = some (frame, [])) :
    frame.header.reqId = request.header.reqId ∧
      ∃ p ∈ w.served.drop before, p.1 = request.taken ∧ frame = p.2.taken := by
  cases h with
  | sending _ _ _ hgot _ | serving _ _ _ hgot =>
      rw [hgot, takeFrame_nil] at htake
      cases htake
  | served response more hserved hgot =>
      have hmem : (request.taken, response) ∈ w.served.drop before := by
        refine List.mem_of_getElem? (i := 0) ?_
        rw [List.getElem?_drop, Nat.add_zero, hserved]
      obtain ⟨hid, hlen⟩ := hanswers _ (List.mem_of_mem_drop hmem)
      have hwhole := takeFrame_append htake w.toClient
      rw [hgot, takeFrame_bytes hlen] at hwhole
      obtain rfl := (Prod.mk.inj (Option.some.inj hwhole)).1
      exact ⟨hid, _, hmem, rfl, rfl⟩

/-! ### Steps and runs -/

/-- A call that returns leaves the matches of the others. -/
theorem Client.Invariant.return {outcome : Except ε Frame} (h : c.Invariant)
    (hr : CallRecord.Matched ⟨request, before, outcome⟩ c.wire.served) :
    (c.return request before outcome).Invariant where
  answers := h.answers
  phase := trivial
  matched := by
    intro r hmem
    rcases List.mem_append.mp hmem with hold | hnew
    · exact h.matched r hold
    · obtain rfl := List.mem_singleton.mp hnew
      exact hr

/-- A step of the server leaves the phase of the call and adds answers at most. -/
theorem Client.Invariant.server (h : c.Invariant)
    (hanswers : ∀ p ∈ w.served, p.2.header.reqId = p.1.header.reqId ∧
      p.2.header.len.toNat ≤ p.2.payload.length)
    (hserved : ∃ more, w.served = c.wire.served ++ more)
    (hflight : ∀ request before left got, request.header.len.toNat ≤ request.payload.length →
      c.wire.InFlight request before left got → w.InFlight request before left got) :
    Client.Invariant { c with wire := w } where
  answers := hanswers
  phase := by
    have hphase := h.phase
    cases hp : c.phase with
    | idle => trivial
    | writing request before left =>
        rw [hp] at hphase
        exact ⟨hphase.1, hflight _ _ _ _ hphase.1 hphase.2⟩
    | reading request before got =>
        rw [hp] at hphase
        exact ⟨hphase.1, hflight _ _ _ _ hphase.1 hphase.2⟩
  matched := by
    obtain ⟨more, hmore⟩ := hserved
    intro r hmem
    have hr := (h.matched r hmem).append more
    rwa [← hmore] at hr

/-- **What a step preserves**, when calls begin on a quiet connection. -/
theorem Client.Invariant.exec {api : Api ε} {decode : Decoding} {e : ClientEvent ε}
    (h : c.Invariant) (hquiet : c.BeginsQuiet e) (he : c.exec api decode e = some c') :
    c'.Invariant := by
  have hphase := h.phase
  cases e with
  | call msgType flags payload =>
      obtain ⟨hserver, hserving, hclient⟩ := hquiet
      rw [Client.exec] at he
      split at he
      · split at he
        · cases he
        · obtain rfl := Option.some.inj he
          refine ⟨h.answers, ⟨Frame.len_make_le .., ?_⟩, h.matched⟩
          exact .sending rfl hserving hclient rfl (by rw [hserver, List.nil_append])
      · cases he
  | write n =>
      rw [Client.exec] at he
      split at he
      next request before left hp =>
        rw [hp] at hphase
        split at he
        next hn =>
          obtain rfl := Option.some.inj he
          have hflight := hphase.2.write n
          refine ⟨h.answers, ?_, h.matched⟩
          dsimp only
          split
          next hall =>
            rw [hall, List.drop_length] at hflight
            exact ⟨hphase.1, hall ▸ hflight⟩
          · exact ⟨hphase.1, hflight⟩
        · cases he
      · cases he
  | read n =>
      rw [Client.exec] at he
      split at he
      next request before got hp =>
        rw [hp] at hphase
        split at he
        next hn =>
          obtain rfl := Option.some.inj he
          exact ⟨h.answers, ⟨hphase.1, hphase.2.read hn.1 hn.2.2⟩, h.matched⟩
        · cases he
      · cases he
  | finish =>
      rw [Client.exec] at he
      split at he
      next request before got hp =>
        rw [hp] at hphase
        split at he
        next frame htake =>
          obtain rfl := Option.some.inj he
          refine h.return ?_
          unfold Api.outcome
          split
          · trivial
          · exact hphase.2.finish h.answers htake
        · cases he
      · cases he
  | fail e =>
      rw [Client.exec] at he
      split at he
      · cases he
      all_goals
        obtain rfl := Option.some.inj he
        exact h.return trivial
  | close =>
      rw [Client.exec] at he
      split at he
      next hp =>
        obtain rfl := Option.some.inj he
        exact ⟨h.answers, hphase, h.matched⟩
      · cases he
  | receive =>
      obtain ⟨w, hw, rfl⟩ := Option.map_eq_some_iff.mp he
      have hserved : w.served = c.wire.served := by
        unfold Wire.receive at hw
        split at hw
        · split at hw
          · exact (Option.some.inj hw) ▸ rfl
          · cases hw
        · cases hw
      refine h.server (hserved ▸ h.answers) ⟨[], by rw [hserved, List.append_nil]⟩ ?_
      exact fun _ _ _ _ hlen hflight => hflight.receive hlen hw
  | respond msgType flags payload =>
      obtain ⟨w, hw, rfl⟩ := Option.map_eq_some_iff.mp he
      have hserved : ∃ request, w.served = c.wire.served ++
          [(request, Frame.make msgType flags request.header.reqId payload)] := by
        unfold Wire.respond at hw
        split at hw
        · cases hw
        next request _ => exact ⟨request, (Option.some.inj hw) ▸ rfl⟩
      obtain ⟨request, hserved⟩ := hserved
      refine h.server ?_ ⟨_, hserved⟩ fun _ _ _ _ _ hflight => hflight.respond hw
      rw [hserved]
      intro p hp
      rcases List.mem_append.mp hp with hold | hnew
      · exact h.answers p hold
      · obtain rfl := List.mem_singleton.mp hnew
        exact ⟨rfl, Frame.len_make_le ..⟩

end Cxdb
