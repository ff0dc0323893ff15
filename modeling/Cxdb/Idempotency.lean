import Cxdb.EventOrder

/-!
# Idempotency Keys

`parse_append_turn` reads the idempotency key of an append, and nothing looks at it again:
an append that is sent twice within the documented lifetime of its key is two appends. So
is the one that a client sends again because the connection was lost before the ack came.

## Main results

* `createdTurn_isSome`: when an append request creates a turn.
* `idempotent_iff`: a run keeps the promise of idempotency keys exactly when no request
  comes again with the key of one that created its turn.
-/

open ByteFormat FaultyDisk Transition

namespace Cxdb

variable {k : Crates}

/-! ### The promise -/

/-- How long the server is to remember a key: 24 hours, in milliseconds. -/
def keyLifetime : ℕ := 24 * 60 * 60 * 1000

/-- The second append comes with the key of the first one, in the lifetime of the key. -/
def KeyedAppend.Repeats (b a : KeyedAppend) : Prop :=
  b.contextId = a.contextId ∧ b.idempotencyKey = a.idempotencyKey ∧ a.idempotencyKey ≠ [] ∧
    b.sentAt.toNat < a.sentAt.toNat + keyLifetime

instance (b a : KeyedAppend) : Decidable (b.Repeats a) := by
  unfold KeyedAppend.Repeats
  infer_instance

/-- Two appends with one key create one turn at most, and their acks name the same turn. -/
def KeyedAppend.Agree (a b : KeyedAppend) : Prop :=
  b.Repeats a →
    ¬(a.created.isSome = true ∧ b.created.isSome = true) ∧
      ∀ i ∈ a.acked, ∀ j ∈ b.acked, i = j

/-- The promise of idempotency keys, for all the appends that the server has seen. -/
def Server.Idempotent (m : Server) : Prop := m.appends.Pairwise KeyedAppend.Agree

/-- The request gets as far as its turn: it passes its checks, finds its parent, and the
files of the turn can be written. -/
def AppendTurnRequest.Creates (k : Crates) (req : AppendTurnRequest) (a : Arrival) : Prop :=
  req.Reaches k.zstd k.blake3 a.shared.store.stores a.fault ∧
    (Spares a.fault [.turnsLog, .turnsIdx, .turnsMeta] ∨
      a.shared.store.stores.turnStore.nextTurnId ∈ a.shared.store.stores.turnStore.turns)

/-- The step is no append that would create a turn and repeats one that did. -/
def Server.SendsOnce (k : Crates) (m : Server) : ServerEvent → Prop
  | .request sessionId frame now fault _ =>
      (m.serving sessionId).isSome = true →
        frame.header.msgType = MsgType.appendTurn.toU16 →
          ∀ req, parseAppendTurn frame.payload frame.header.flags = .ok req →
            req.Creates k (m.arrival frame now fault) →
              ∀ a ∈ m.appends, KeyedAppend.Repeats ⟨req.contextId, req.idempotencyKey, now,
                none, none⟩ a → a.created = none
  | _ => True

/-! ### What an append creates -/

theorem createdTurn_isSome_iff {before after : TurnStore} :
    (createdTurn before after).isSome = true ↔
      after.nextTurnId ≠ before.nextTurnId ∧ before.nextTurnId ∈ after.turns := by
  unfold createdTurn
  split
  next h => exact iff_of_true rfl h
  next h => exact iff_of_false Bool.false_ne_true h

/-- An entry with a turn moves the counter, and stores its turn unless the fault is in a file
of the turn. -/
theorem createdTurn_after (s : TurnStore) (r : AppendRequest) (p : UInt64 × UInt32)
    (now : UInt64) (len : ℕ) (stop : Option (Fault DataFile)) :
    (createdTurn s (s.after (r.args.entry s.nextTurnId p now) len stop)).isSome = true ↔
      (∀ f ∈ stop, f.file = .headsTbl) ∨ s.nextTurnId ∈ s.turns := by
  have hmoved : ∀ s' : TurnStore, s'.nextTurnId = s.nextTurnId + 1 →
      s'.nextTurnId ≠ s.nextTurnId := by
    intro s' h heq
    rw [h] at heq
    simp at heq
  have hinsert : ∀ record : TurnRecord, s.nextTurnId ∈ s.turns.insert s.nextTurnId record :=
    fun record => Finmap.mem_insert.mpr (Or.inl rfl)
  rw [createdTurn_isSome_iff]
  cases stop with
  | none => exact iff_of_true ⟨hmoved _ rfl, hinsert _⟩ (Or.inl (by simp))
  | some f =>
      by_cases hf : f.file = .headsTbl
      · simp only [TurnStore.after, hf, if_true]
        exact iff_of_true ⟨hmoved _ rfl, hinsert _⟩ (Or.inl (by simp [hf]))
      · simp only [TurnStore.after, hf, if_false, Option.mem_some_iff, forall_eq', false_or]
        exact ⟨And.right, fun h => ⟨hmoved _ rfl, h⟩⟩

/-- **An append request creates a turn** exactly when it gets as far as its turn. -/
theorem createdTurn_isSome {req : AppendTurnRequest} {a : Arrival} {s' : Store}
    {x : Except StoreError (TurnRecord × Option ContextMetadata)}
    (h : req.Outcome k a.now a.shared.store a.fault x s') :
    (createdTurn a.shared.store.stores.turnStore s'.stores.turnStore).isSome = true ↔
      req.Creates k a := by
  unfold AppendTurnRequest.Creates
  cases h with
  | stopped hreach hturns hroots =>
      rw [show ({ a.shared.store with stores := _ } : Store).stores.turnStore = _ from hturns,
        createdTurn_isSome_iff]
      exact iff_of_false (fun h => h.1 rfl) fun h => hreach h.1
  | @cut stores p len f hreach hfault hfile hparent hturns hroots =>
      have hspares : (∀ g ∈ some f, g.file = DataFile.headsTbl) ↔
          Spares a.fault [.turnsLog, .turnsIdx, .turnsMeta] := by
        have hfile : f.file = .turnsLog ∨ f.file = .turnsIdx ∨ f.file = .turnsMeta ∨
            f.file = .headsTbl := by
          simpa [turnFiles] using hfile
        rw [hfault]
        rcases hfile with h | h | h | h <;> simp [Spares, h]
      dsimp only
      rw [hturns, createdTurn_after, hspares]
      exact (and_iff_right hreach).symm
  | @unattached e stores p len raw hreach hspares hready hraw hparent hturns hroots =>
      dsimp only
      rw [hturns, createdTurn_after]
      exact iff_of_true (Or.inl (by simp)) ⟨hreach, Or.inl (hspares.mono (by decide))⟩
  | @appended stores p len raw hreach hspares hready hraw hparent hturns =>
      dsimp only
      rw [hturns, createdTurn_after]
      exact iff_of_true (Or.inl (by simp)) ⟨hreach, Or.inl (hspares.mono (by decide))⟩

/-- An append that succeeds gets as far as its turn. -/
theorem AppendTurnRequest.Outcome.creates {req : AppendTurnRequest} {a : Arrival} {s' : Store}
    {r : TurnRecord × Option ContextMetadata}
    (h : req.Outcome k a.now a.shared.store a.fault (.ok r) s') : req.Creates k a := by
  cases h with
  | appended hreach hspares => exact ⟨hreach, Or.inl (hspares.mono (by decide))⟩

/-- **What is remembered of an append**: the turn that it created, and an ack only if it
created one. -/
theorem keyedAppend_eq {σ : Session} {a : Arrival}
    (hmsg : a.frame.header.msgType = MsgType.appendTurn.toU16) {req : AppendTurnRequest}
    (hparse : parseAppendTurn a.frame.payload a.frame.header.flags = .ok req) (written : Bool) :
    ∃ created acked, a.keyedAppend (handleFrame k σ a).2.2
        (ackOf (handleFrame k σ a).1 written) =
          some ⟨req.contextId, req.idempotencyKey, a.now, created, acked⟩ ∧
      (created.isSome = true ↔ req.Creates k a) ∧
        (acked.isSome = true → created.isSome = true) := by
  have hpass := handleFrame_pass (k := k) σ a
  rcases hframe : handleFrame k σ a with ⟨reply, σ', sh⟩
  rw [hframe] at hpass
  dsimp only at hpass ⊢
  refine ⟨_, _, by rw [Arrival.keyedAppend, if_pos hmsg, hparse], ?_⟩
  cases hpass with
  | plain hturns htracker hevents herrors happend =>
      obtain ⟨e, he, -⟩ := happend hmsg
      rw [hparse] at he
      cases he
  | hello hm => exact absurd (hmsg.symm.trans hm) (by decide)
  | noContext hm => exact absurd hm (by rw [hmsg]; decide)
  | context hm => exact absurd hm (by rw [hmsg]; decide)
  | @appendTurn req' _ x hm hparse' houtcome htracker hevents =>
      obtain rfl : req = req' := by
        rw [hparse] at hparse'
        exact Except.ok.inj hparse'
      have hcreated := createdTurn_isSome houtcome
      refine ⟨hcreated, fun hacked => hcreated.mpr ?_⟩
      rw [ackOf_appendReply] at hacked
      cases x with
      | error e => simp [Except.toOption] at hacked
      | ok r => exact houtcome.creates

/-- Other requests are not remembered. -/
theorem keyedAppend_eq_none {a : Arrival} {after : Shared} {acked : Option UInt64}
    (h : ¬∃ req, a.frame.header.msgType = MsgType.appendTurn.toU16 ∧
      parseAppendTurn a.frame.payload a.frame.header.flags = .ok req) :
    a.keyedAppend after acked = none := by
  unfold Arrival.keyedAppend
  split
  case isFalse => rfl
  next hmsg =>
    cases hparse : parseAppendTurn a.frame.payload a.frame.header.flags with
    | error e => rfl
    | ok req => exact absurd ⟨req, hmsg, hparse⟩ h

/-! ### A step -/

/-- Every append that was acked created a turn. -/
def Server.AcksCreated (m : Server) : Prop :=
  ∀ a ∈ m.appends, a.acked.isSome = true → a.created.isSome = true

/-- What a step adds to the appends that are remembered. -/
inductive Server.Remembers (k : Crates) (m : Server) (e : ServerEvent) (m' : Server) : Prop
  /-- No append that parses. -/
  | nothing (hsame : m'.appends = m.appends) (honce : m.SendsOnce k e)
  /-- An append. -/
  | append (b : KeyedAppend) (hsame : m'.appends = m.appends ++ [b])
      (hacked : b.acked.isSome = true → b.created.isSome = true)
      (honce : m.SendsOnce k e ↔ (b.created.isSome = true →
        ∀ a ∈ m.appends, b.Repeats a → a.created = none))

theorem Server.remembers {m m' : Server} {e : ServerEvent} (h : m.exec k e = some m') :
    m.Remembers k e m' := by
  cases e with
  | connect peerAddr =>
      simp only [Server.exec, Option.some.injEq] at h
      subst h
      exact .nothing rfl trivial
  | hangUp sessionId reason =>
      obtain ⟨σ, -, rfl⟩ := by simpa [Server.exec] using h
      refine .nothing ?_ trivial
      unfold Server.close
      dsimp only
      split <;> rfl
  | http call now fault =>
      simp only [Server.exec] at h
      split at h
      · cases h
      · simp only [Option.some.injEq] at h
        subst h
        exact .nothing rfl trivial
  | publish =>
      simp only [Server.exec] at h
      split at h
      · simp only [Option.some.injEq] at h
        subst h
        exact .nothing rfl trivial
      · cases h
  | httpRespond =>
      simp only [Server.exec] at h
      split at h
      · simp only [Option.some.injEq] at h
        subst h
        exact .nothing rfl trivial
      · cases h
  | request sessionId frame now fault written =>
      obtain ⟨σ, hσ, rfl⟩ := by simpa [Server.exec] using h
      have hserving : (m.serving sessionId).isSome = true := by rw [hσ]; rfl
      by_cases hreq : ∃ req, frame.header.msgType = MsgType.appendTurn.toU16 ∧
          parseAppendTurn frame.payload frame.header.flags = .ok req
      · obtain ⟨req, hmsg, hparse⟩ := hreq
        obtain ⟨created, acked, hkeyed, hcreated, hacked⟩ :=
          keyedAppend_eq (k := k) (σ := σ) (a := m.arrival frame now fault) hmsg hparse written
        refine .append ⟨req.contextId, req.idempotencyKey, now, created, acked⟩ ?_ hacked ?_
        · simp only [Server.serve]
          rw [hkeyed]
          rfl
        · constructor
          · exact fun honce hc a ha hr =>
              honce hserving hmsg req hparse (hcreated.mp hc) a ha hr
          · intro hfree _ _ req' hparse' hcreates a ha hr
            obtain rfl : req = req' := by
              rw [hparse] at hparse'
              exact Except.ok.inj hparse'
            exact hfree (hcreated.mpr hcreates) a ha hr
      · refine .nothing ?_ fun _ hmsg req hparse => absurd ⟨req, hmsg, hparse⟩ hreq
        simp only [Server.serve]
        rw [keyedAppend_eq_none (a := m.arrival frame now fault) hreq]
        exact List.append_nil _

theorem Server.AcksCreated.exec {m m' : Server} {e : ServerEvent} (h : m.AcksCreated)
    (hexec : m.exec k e = some m') : m'.AcksCreated := by
  intro a ha
  cases Server.remembers hexec with
  | nothing hsame => exact h a (hsame ▸ ha)
  | append b hsame hacked =>
      rw [hsame, List.mem_append, List.mem_singleton] at ha
      rcases ha with ha | rfl
      · exact h a ha
      · exact hacked

/-- **A step keeps the promise** exactly when it does not create a second turn for a key. -/
theorem Server.Idempotent.exec_iff {m m' : Server} {e : ServerEvent} (hacks : m.AcksCreated)
    (hexec : m.exec k e = some m') :
    m'.Idempotent ↔ m.Idempotent ∧ m.SendsOnce k e := by
  unfold Server.Idempotent
  cases Server.remembers hexec with
  | nothing hsame honce =>
      rw [hsame]
      exact (and_iff_left honce).symm
  | append b hsame hacked honce =>
      rw [hsame, honce, List.pairwise_append]
      simp only [List.pairwise_singleton, true_and, List.mem_singleton, forall_eq]
      refine and_congr_right fun _ => ⟨?_, ?_⟩
      · intro hagree hb a ha hrepeats
        have := (hagree a ha hrepeats).1
        simpa [hb] using this
      · intro hfree a ha hrepeats
        have hnone : b.created.isSome = true → a.created = none :=
          fun hb => hfree hb a ha hrepeats
        refine ⟨fun ⟨hcreated, hb⟩ => ?_, fun i hi j hj => ?_⟩
        · simp [hnone hb] at hcreated
        · have hcreated := hacks a ha (Option.isSome_of_mem hi)
          rw [hnone (hacked (Option.isSome_of_mem hj))] at hcreated
          cases hcreated

/-! ### Runs -/

theorem Server.acksCreated_of_run {store : Store} {disk : DataDir} {es : List ServerEvent}
    {m : Server} (hrun : Run (Steps (Server.exec k)) (Server.opened store disk) es m) :
    m.AcksCreated := by
  refine hrun.invariant (I := fun _ m => m.AcksCreated) ?_ fun _ _ _ _ h hs => h.exec hs
  exact fun a ha => absurd ha List.not_mem_nil

/-- **Idempotent appends**: over all connections, two appends with the key of one another
create one turn and are acked with the same turn exactly in the runs in which no request
comes again with the key of one that created its turn. -/
theorem idempotent_iff {store : Store} {disk : DataDir} {es : List ServerEvent} {m : Server}
    (hrun : Run (Steps (Server.exec k)) (Server.opened store disk) es m) :
    m.Idempotent ↔
      Run (Guarded (Server.SendsOnce k) (Steps (Server.exec k))) (Server.opened store disk)
        es m := by
  refine hrun.guarded_iff (P := Server.Idempotent) List.Pairwise.nil ?_
  exact fun _ _ _ _ hr hexec => Server.Idempotent.exec_iff (Server.acksCreated_of_run hr) hexec

/-- A client creates a context and appends with a key, and loses the connection before the
ack comes. It connects again and sends the append again. -/
def resend : List ServerEvent :=
  firstContext ++ [.request 1 (plainAppendFrame 1 2 [1]) 0 none false, .connect "",
    .request 2 (plainAppendFrame 1 1 [1]) 0 none true]

set_option maxRecDepth 4000 in
/-- `idempotent_iff` over a resend: the run is no run of requests that come once. -/
theorem idempotent_iff_resend :
    ∃ m : Server, m.appends =
        [⟨1, [1], 0, some 1, none⟩, ⟨1, [1], 0, some 2, some 2⟩] ∧
      (m.Idempotent ↔ Run (Guarded (Server.SendsOnce .plain) (Steps (Server.exec .plain)))
        (Server.opened Store.empty fun _ => []) resend m) := by
  obtain ⟨m, hrun, happends⟩ := exists_run_of_foldlM (fun _ _ => True) (Server.exec .plain)
    (Server.opened Store.empty fun _ => []) resend
    (fun m => m.appends = [⟨1, [1], 0, some 1, none⟩, ⟨1, [1], 0, some 2, some 2⟩])
    (by decide)
  exact ⟨m, happends, idempotent_iff hrun.of_guarded⟩

set_option maxRecDepth 4000 in
/-- **A resend makes a second turn.** The first append created turn 1, and its ack was lost;
the second one has the same key, and creates turn 2. -/
theorem resend_duplicates :
    ∃ m, Run (Steps (Server.exec .plain)) (Server.opened Store.empty fun _ => []) resend m ∧
      m.appends = [⟨1, [1], 0, some 1, none⟩, ⟨1, [1], 0, some 2, some 2⟩] ∧
        ¬m.Idempotent := by
  obtain ⟨m, hrun, happends⟩ := exists_run_of_foldlM (fun _ _ => True) (Server.exec .plain)
    (Server.opened Store.empty fun _ => []) resend
    (fun m => m.appends = [⟨1, [1], 0, some 1, none⟩, ⟨1, [1], 0, some 2, some 2⟩])
    (by decide)
  refine ⟨m, hrun.of_guarded, happends, fun h => ?_⟩
  rw [Server.Idempotent, happends] at h
  have hagree := (List.pairwise_cons.mp h).1 _ (List.mem_singleton.mpr rfl) (by decide)
  exact hagree.1 ⟨rfl, rfl⟩

end Cxdb
