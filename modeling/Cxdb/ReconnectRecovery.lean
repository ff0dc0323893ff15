import Cxdb.RequestQueue

/-!
# Recovering from a Lost Connection

After a connection error the sender of a reconnecting client drops its client and dials
again, as often as it is allowed to. When all attempts have failed there is no client left,
and the wrapper does not come back from this: the next operation makes the Go client crash,
and the Rust client reports itself closed for every operation from then on, although
nobody has closed it.

## Main results

* `reconnect_recovers`: an operation that is taken up next finds a client, in every state of
  a run, exactly if no reconnect of the run ended without one.
* `exhausted_reconnect`: what follows when one did.
-/

open Transition

namespace Cxdb

variable {lib : ClientLib} {cfg : QueueConfig} {s s' : QueueState} {e : QueueEvent}
  {es : List QueueEvent}

/-- The sender has an operation in its hands. -/
def QueueState.takes (s : QueueState) (i : ℕ) : QueueState := { s with sender := .taken i }

/-- An operation that is taken up next is applied to a client, or a connection is made for
it; only a client that was closed may turn it down. -/
def QueueState.Recovers (lib : ClientLib) (cfg : QueueConfig) (s : QueueState) : Prop :=
  (∀ i, s.sender ≠ .crashed i) ∧
    ∀ i, s.sender = .idle ∨ s.sender = .taken i →
      ∃ s', (s.takes i).execSender lib cfg .begin = some s' ∧
        (s'.sender = .calling i false ∧ s'.client = true ∨ s'.sender.inReconnect = true ∨
          s.closed = true ∧ s'.sender = .idle)

/-- No reconnect ends without a client, unless in Rust after the wrapper was closed. -/
def QueueState.KeepsClient (lib : ClientLib) (s : QueueState) : QueueEvent → Prop
  | .sender e => e.endsReconnect = true → s.client = true ∨ lib = .rust ∧ s.closed = true
  | _ => True

/-- There is a client, or one is being made, or in Rust the wrapper is closed. -/
structure QueueState.Connected (lib : ClientLib) (s : QueueState) : Prop where
  client : s.client = true ∨ s.sender.inReconnect = true ∨ lib = .rust ∧ s.closed = true
  crashed : ∀ i, s.sender ≠ .crashed i

theorem QueueState.Connected.initial : QueueState.initial.Connected lib :=
  ⟨Or.inl rfl, fun _ h => by cases h⟩

/-- What an operation finds that is taken up next. -/
theorem QueueState.Connected.canRecover (h : s.Connected lib) : s.Recovers lib cfg := by
  refine ⟨h.crashed, fun i hi => ?_⟩
  have hnot : s.sender.inReconnect ≠ true := by
    rcases hi with hidle | htaken
    · rw [hidle]
      nofun
    · rw [htaken]
      nofun
  cases hclient : (s.takes i).client with
  | true => exact ⟨_, begin_of_client rfl hclient, Or.inl ⟨rfl, hclient⟩⟩
  | false =>
      rcases h.client with hclient' | hreconnect | ⟨rfl, hclosed⟩
      · exact absurd (hclient'.symm.trans hclient) nofun
      · exact absurd hreconnect hnot
      · exact ⟨_, begin_rust rfl hclient, Or.inr (Or.inr ⟨hclosed, rfl⟩)⟩

/-- A wrapper that recovers and is between two operations has a client. -/
theorem QueueState.Recovers.client (h : s.Recovers lib cfg) (hidle : s.sender = .idle) :
    s.client = true ∨ lib = .rust ∧ s.closed = true := by
  obtain ⟨s', hs', hresult⟩ := h.2 0 (Or.inl hidle)
  cases hclient : (s.takes 0).client with
  | true => exact Or.inl hclient
  | false =>
      cases lib with
      | rust =>
          rw [begin_rust rfl hclient] at hs'
          obtain rfl := Option.some.inj hs'
          rcases hresult with ⟨hcalling, -⟩ | hreconnect | ⟨hclosed, -⟩
          · cases hcalling
          · cases hreconnect
          · exact Or.inr ⟨rfl, hclosed⟩
      | go =>
          rw [begin_go rfl hclient] at hs'
          obtain rfl := Option.some.inj hs'
          rcases hresult with ⟨hcalling, -⟩ | hreconnect | ⟨-, hidle'⟩
          · cases hcalling
          · cases hreconnect
          · cases hidle'

theorem QueueState.Connected.change (h : s.Connected lib) (hkeeps : s.KeepsClient lib e)
    (hclosed : s.closed = true → s'.closed = true) (hs : s.Change lib cfg e s') :
    s'.Connected lib := by
  cases hs with
  | caller | accept => exact ⟨h.client, h.crashed⟩
  | handOver hqueued hidle =>
      refine ⟨?_, nofun⟩
      rcases h.client with hclient | hreconnect | hrust
      · exact Or.inl hclient
      · rw [hidle] at hreconnect
        cases hreconnect
      · exact Or.inr (Or.inr hrust)
  | flags closed signalled =>
      exact ⟨h.client.imp_right (Or.imp_right fun hrust => ⟨hrust.1, hclosed hrust.2⟩), h.crashed⟩
  | move client hends hop hwork hexited hcrashed hclient =>
      constructor
      · rcases hclient with hclient | hreconnect | ⟨rfl, hnot⟩
        · exact Or.inl hclient
        · exact Or.inr (Or.inl hreconnect)
        · rcases h.client with hclient | hreconnect | hrust
          · exact Or.inl hclient
          · rw [hnot] at hreconnect
            cases hreconnect
          · exact Or.inr (Or.inr hrust)
      · intro i hi
        obtain ⟨rfl, rfl, hnone, htaken⟩ := hcrashed i hi
        rcases h.client with hclient | hreconnect | ⟨hrust, -⟩
        · rw [hnone] at hclient
          cases hclient
        · rw [htaken] at hreconnect
          cases hreconnect
        · cases hrust
  | take hidle =>
      refine ⟨?_, nofun⟩
      rcases h.client with hclient | hreconnect | hrust
      · exact Or.inl hclient
      · rw [hidle] at hreconnect
        cases hreconnect
      · exact Or.inr (Or.inr hrust)
  | finish r hop hwork hends =>
      refine ⟨?_, nofun⟩
      rcases h.client with hclient | hreconnect | hrust
      · exact Or.inl hclient
      · exact (hkeeps (hends ▸ hreconnect)).imp_right Or.inr
      · exact Or.inr (Or.inr hrust)
  | drain hdraining => exact ⟨h.client, h.crashed⟩
  | exit hdraining =>
      refine ⟨?_, nofun⟩
      rcases h.client with hclient | hreconnect | hrust
      · exact Or.inl hclient
      · rw [hdraining] at hreconnect
        cases hreconnect
      · exact Or.inr (Or.inr hrust)

/-- A closed wrapper stays closed. -/
theorem QueueState.closed_step (hs : QueueStep lib cfg s e s') (h : s.closed = true) :
    s'.closed = true := by
  cases e with
  | close e =>
      cases e <;> simp only [Steps, exec, execClose] at hs <;> split at hs <;> cases hs
      · rfl
      · exact h
  | caller i e =>
      cases change hs <;> exact h
  | sender e =>
      cases change hs <;> exact h

/-- The wrapper is connected after a run in which no reconnect ended without a client. -/
theorem QueueState.connected_of_run
    (h : Run (Guarded (QueueState.KeepsClient lib) (QueueStep lib cfg)) .initial es s) :
    s.Connected lib :=
  h.invariant (I := fun _ s => s.Connected lib) .initial fun _ _ _ _ h hs =>
    h.change hs.1 (closed_step hs.2) (change hs.2)

/-- A reconnect that ends without a client leaves a wrapper that does not recover. -/
theorem QueueState.keepsClient_of_recovers (hs : QueueStep lib cfg s e s')
    (h : s'.Recovers lib cfg) : s.KeepsClient lib e := by
  cases e with
  | caller | close => exact trivial
  | sender e =>
      intro hends
      have hclient : s'.sender = .idle → s'.client = true ∨ lib = .rust ∧ s'.closed = true :=
        h.client
      cases change hs with
      | finish r hop hwork hreconnect => exact hclient rfl
      | move client hnot =>
          rw [hnot] at hends
          cases hends
      | take | drain | exit => cases hends

/-- **When a wrapper recovers from a lost connection.** In every state of a run an operation
that is taken up next finds a client, or one is made for it, exactly if no reconnect of the
run was given up after the old client had been dropped. -/
theorem reconnect_recovers (lib : ClientLib) (cfg : QueueConfig) {es : List QueueEvent}
    {s : QueueState} (h : Run (QueueStep lib cfg) .initial es s) :
    (∀ fs gs t, es = fs ++ gs → Run (QueueStep lib cfg) .initial fs t → t.Recovers lib cfg) ↔
      Run (Guarded (QueueState.KeepsClient lib) (QueueStep lib cfg)) .initial es s := by
  constructor
  · intro hrecovers
    induction es using List.reverseRecOn generalizing s with
    | nil =>
        obtain rfl := run_nil_iff.mp h
        exact .start
    | append_singleton es e ih =>
        obtain ⟨t, ht, hs⟩ := run_append_singleton_iff.mp h
        have hprefix := ih ht fun fs gs u hsplit hu =>
          hrecovers fs (gs ++ [e]) u (by rw [hsplit, List.append_assoc]) hu
        exact hprefix.next ⟨QueueState.keepsClient_of_recovers hs
          (hrecovers _ [] _ (List.append_nil _).symm h), hs⟩
  · intro hguarded
    induction hguarded with
    | start =>
        intro fs gs t hsplit ht
        obtain ⟨rfl, rfl⟩ := List.append_eq_nil_iff.mp hsplit.symm
        obtain rfl := run_nil_iff.mp ht
        exact QueueState.Connected.initial.canRecover
    | @next es s s' e hrun hs ih =>
        intro fs gs t hsplit ht
        rcases List.eq_nil_or_concat gs with rfl | ⟨gs, e', rfl⟩
        · rw [List.append_nil] at hsplit
          subst hsplit
          obtain rfl := ht.deterministic (hrun.next hs).of_guarded
          exact (QueueState.connected_of_run (hrun.next hs)).canRecover
        · rw [List.concat_eq_append, ← List.append_assoc] at hsplit
          obtain ⟨hes, -⟩ := List.append_inj' hsplit rfl
          exact ih hrun.of_guarded fs gs t hes ht

/-- An operation whose reconnect succeeds. -/
def reconnectedOperation : List QueueEvent :=
  [.caller 0 .check, .caller 0 .send, .sender .take, .sender .begin, .sender (.done true),
    .sender (.dial true), .sender (.done false)]

/-- `reconnect_recovers` for an operation whose reconnect succeeds. -/
theorem reconnect_recovers_reconnectedOperation :
    ∃ s, Run (QueueStep .go ⟨1, 1⟩) .initial reconnectedOperation s ∧ s.Recovers .go ⟨1, 1⟩ := by
  have hguarded : Run (Guarded (QueueState.KeepsClient .go) (QueueStep .go ⟨1, 1⟩)) .initial
      reconnectedOperation _ :=
    (((((((Run.start.next ⟨trivial, rfl⟩).next ⟨trivial, rfl⟩).next ⟨nofun, rfl⟩).next
      ⟨nofun, rfl⟩).next ⟨nofun, rfl⟩).next ⟨nofun, rfl⟩).next ⟨nofun, rfl⟩)
  have hrun := hguarded.of_guarded
  exact ⟨_, hrun, (reconnect_recovers .go ⟨1, 1⟩ hrun).mpr hguarded _ [] _
    (List.append_nil _).symm hrun⟩

/-! ### A reconnect that was given up -/

/-- There is no client, and none is being made. -/
def QueueState.Stranded (s : QueueState) : Prop :=
  s.client = false ∧ ((s.sender = .idle ∨ s.sender = .draining ∨ s.sender = .exited) ∨
    ∃ i, s.sender = .taken i ∨ s.sender = .crashed i)

/-- **A wrapper without a client stays without one.** -/
theorem QueueState.Stranded.step (h : s.Stranded) (hs : QueueStep lib cfg s e s') :
    s'.Stranded := by
  obtain ⟨hclient, hphase⟩ := h
  cases e with
  | caller i e =>
      cases change hs with
      | handOver => exact ⟨hclient, Or.inr ⟨i, Or.inl rfl⟩⟩
      | caller | accept => exact ⟨hclient, hphase⟩
  | close e =>
      have hchange : s.Change lib cfg (.close e) s' := change hs
      cases hchange with
      | flags => exact ⟨hclient, hphase⟩
  | sender e =>
      rcases hphase with (hidle | hdraining | hexited) | ⟨i, htaken | hcrashed⟩
      · cases e with
        | take =>
            simp only [Steps, exec, execSender, hidle] at hs
            split at hs
            · cases hs
              exact ⟨hclient, Or.inr ⟨_, Or.inl rfl⟩⟩
            · cases hs
        | shutdown =>
            simp only [Steps, exec, execSender, hidle] at hs
            split at hs
            · cases hs
              exact ⟨hclient, Or.inl (Or.inr (Or.inl rfl))⟩
            · cases hs
        | _ => simp [Steps, exec, execSender, hidle] at hs
      · cases e with
        | drain =>
            simp only [Steps, exec, execSender, hdraining] at hs
            split at hs
            · cases hs
              exact ⟨hclient, Or.inl (Or.inr (Or.inl hdraining))⟩
            · cases hs
        | exit =>
            simp only [Steps, exec, execSender, hdraining] at hs
            split at hs
            · cases hs
              exact ⟨hclient, Or.inl (Or.inr (Or.inr rfl))⟩
            · cases hs
        | _ => simp [Steps, exec, execSender, hdraining] at hs
      · cases e <;> simp [Steps, exec, execSender, hexited] at hs
      · cases e with
        | contextDone =>
            simp only [Steps, exec, execSender, htaken] at hs
            cases hs
            exact ⟨hclient, Or.inl (Or.inl rfl)⟩
        | begin =>
            cases lib with
            | rust =>
                have hbegin : s.execSender .rust cfg .begin = _ := begin_rust htaken hclient
                cases hbegin.symm.trans hs
                exact ⟨hclient, Or.inl (Or.inl rfl)⟩
            | go =>
                have hbegin : s.execSender .go cfg .begin = _ := begin_go htaken hclient
                cases hbegin.symm.trans hs
                exact ⟨hclient, Or.inr ⟨i, Or.inr rfl⟩⟩
        | _ => simp [Steps, exec, execSender, htaken] at hs
      · cases e <;> simp [Steps, exec, execSender, hcrashed] at hs

/-- A reconnect that is given up for lack of retries, and the operation after it. -/
def exhaustedReconnect : List QueueEvent :=
  [.caller 0 .check, .caller 0 .send, .sender .take, .sender .begin, .sender (.done true),
    .sender (.dial false), .sender .giveUp, .caller 1 .check, .caller 1 .send, .sender .take,
    .sender .begin]

/-- **An exhausted reconnect.** The next operation makes the Go client crash; in Rust it is
reported closed, although nobody closed the client, which never has a connection again. -/
theorem exhausted_reconnect :
    (∃ s, Run (QueueStep .go ⟨1, 1⟩) .initial exhaustedReconnect s ∧ s.sender = .crashed 1) ∧
      ∃ s, Run (QueueStep .rust ⟨1, 1⟩) .initial exhaustedReconnect s ∧
        s.results 1 = [.closed] ∧ s.closed = false ∧
          ∀ es t, Run (QueueStep .rust ⟨1, 1⟩) s es t → t.client = false := by
  have hrun : ∀ {lib s}, exhaustedReconnect.foldlM (fun s e => if True then
      QueueState.exec lib ⟨1, 1⟩ s e else none) .initial = some s →
      Run (QueueStep lib ⟨1, 1⟩) .initial exhaustedReconnect s := fun h =>
    Run.of_guarded (run_of_foldlM (C := fun _ _ => True) h)
  refine ⟨⟨_, hrun rfl, rfl⟩, _, hrun rfl, rfl, rfl, fun es t h => ?_⟩
  exact (h.invariant (I := fun _ s => QueueState.Stranded s) ⟨rfl, Or.inl (Or.inl rfl)⟩
    fun _ _ _ _ h hs => h.step hs).1

end Cxdb
