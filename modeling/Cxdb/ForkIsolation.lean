import Cxdb.Confinement

/-!
# Forks Are Isolated

Contexts share the turns of their common past, and an append moves the head of its own
context only. The turn that it makes has an id that no stored turn has, so every other
context reads what it read before. A forked context whose appends name no parent grows on
top of the turn that it was forked at.

Both rest on the turn DAG, and a record that is written behind a torn one breaks it: the
next opening cuts the log there, and a head may then name a turn that is gone and whose id
is given out again.

## Main results

* `Stores.Sound.append_isolated`: an append leaves every other context as it was.
* `Follows.step`: a forked context stays on top of the path that it was forked at.
* `fork_isolation`: both, in every state of every run that writes behind no torn record.
* `lost_turn_breaks_isolation`: an append to one context that changes another one.
-/

open ByteFormat FaultyDisk RecordLog LastWrite Transition ParentChain

namespace Cxdb

variable {z : Zstd} {blake3 : Bytes → Hash}

/-! ### Blobs -/

/-- What lies in a file is read when more comes behind it. -/
theorem readAtExact_more {pack : Bytes} {offset len : ℕ} (h : offset + len ≤ pack.length)
    (more : Bytes) : readAtExact (pack ++ more) offset len = readAtExact pack offset len := by
  have hlen : offset + len ≤ (pack ++ more).length := by
    rw [List.length_append]
    omega
  have htake : ((pack ++ more).drop offset).take len = (pack.drop offset).take len := by
    rw [List.drop_append_of_le_length (by omega), List.take_append_of_le_length]
    rw [List.length_drop]
    omega
  rw [readAtExact, readAtExact, if_pos h, if_pos hlen, htake]

/-- A record that lies in the pack is read when more comes behind it. -/
theorem BlobStore.get_append {s s' : BlobStore} {pack : Bytes} {hash : Hash}
    {e : BlobIndexEntry} (hl : s.index.lookup hash = some e) (hwithin : e.Within pack)
    (hl' : s'.index.lookup hash = some e) (more : Bytes) :
    s'.get z (pack ++ more) hash = s.get z pack hash := by
  rw [BlobIndexEntry.Within] at hwithin
  rw [get, get, hl, hl']
  dsimp only
  rw [readAtExact_more (by omega)]
  refine bind_congr fun header => bind_congr fun read => ?_
  obtain ⟨h, -⟩ := read
  by_cases hhash : h.storedHash ≠ hash
  · rw [if_pos hhash, if_pos hhash]
    rfl
  by_cases hlens : h.storedLen ≠ e.storedLen ∨ h.rawLen ≠ e.rawLen
  · rw [if_neg hhash, if_neg hhash, if_pos hlens, if_pos hlens]
    rfl
  by_cases hoffset : 2 ^ 64 ≤ e.offset.toNat + 48
  · rw [if_neg hhash, if_neg hhash, if_neg hlens, if_neg hlens, if_pos hoffset,
      if_pos hoffset]
    rfl
  rw [if_neg hhash, if_neg hhash, if_neg hlens, if_neg hlens, if_neg hoffset,
    if_neg hoffset]
  rw [not_or, not_not, not_not] at hlens
  dsimp only
  rw [readAtExact_more (by rw [hlens.1]; omega)]

/-! ### An append -/

/-- What a context shows is the same in both stores: its head, its last turns and its pages,
with metadata and payloads. A page before `newTurnId` is none that was there. -/
structure Stores.SameContext (z : Zstd) (s s' : Stores) (pack pack' : Bytes)
    (contextId newTurnId : UInt64) : Prop where
  head : s'.turnStore.getHead contextId = s.turnStore.getHead contextId
  last : ∀ limit includePayload, s'.getLast z pack' contextId limit includePayload =
    s.getLast z pack contextId limit includePayload
  before : ∀ beforeTurnId limit includePayload, beforeTurnId ≠ newTurnId →
    s'.getBefore z pack' contextId beforeTurnId limit includePayload =
      s.getBefore z pack contextId beforeTurnId limit includePayload

/-- What is stored of a turn is the same in both stores. -/
def Stores.SameTurns (z : Zstd) (s s' : Stores) (pack pack' : Bytes) : Prop :=
  ∀ k r, s.turnStore.turns.lookup k = some r →
    s'.turnStore.turns.lookup k = some r ∧
      s'.turnStore.getTurnMeta k = s.turnStore.getTurnMeta k ∧
      s'.blobStore.get z pack' r.payloadHash = s.blobStore.get z pack r.payloadHash

/-- The turns and the metadata after a call differ at the new id only. -/
theorem TurnStore.after_of_ne {s : TurnStore} {now : UInt64} {c : TurnCall} {w : Entry}
    (hw : s.entryOf now c = .ok w) (offset : ℕ) (stop : Option (Fault DataFile)) {k : UInt64}
    (hk : k ≠ s.nextTurnId) :
    (s.after w offset stop).turns.lookup k = s.turns.lookup k ∧
      (s.after w offset stop).turnMeta.lookup k = s.turnMeta.lookup k := by
  rcases ht : w.turn with _ | t
  · have hsame : (s.after w offset stop).turns = s.turns ∧
        (s.after w offset stop).turnMeta = s.turnMeta := by
      cases stop with
      | none => simp [TurnStore.after, TurnStore.addHead, TurnStore.addTurn, takeId, ht]
      | some f =>
          simp only [TurnStore.after]
          split <;> simp [TurnStore.addTurn, takeId, ht]
    rw [hsame.1, hsame.2]
    exact ⟨rfl, rfl⟩
  · have hne : k ≠ t.1.turnId := by
      rw [entryOf_turnId hw ht]
      exact hk
    have hnew : ∀ {α : Type} (m : HashMap UInt64 α) (a : α),
        (m.insert t.1.turnId a).lookup k = m.lookup k :=
      fun m a => Finmap.lookup_insert_of_ne _ hne
    cases stop with
    | none => simp [TurnStore.after, TurnStore.addHead, TurnStore.addTurn, takeId, ht, hnew]
    | some f =>
        simp only [TurnStore.after]
        split <;> simp [TurnStore.addTurn, takeId, ht, hnew]

/-- A call that stops leaves the heads. -/
theorem TurnStore.after_some_heads (s : TurnStore) (w : Entry) (offset : ℕ)
    (f : Fault DataFile) : (s.after w offset (some f)).heads = s.heads := by
  rw [TurnStore.after]
  split <;> rcases w with ⟨_ | t, head⟩ <;> rfl

/-- The heads after a call differ at the context of the entry only. -/
theorem TurnStore.after_heads_of_ne (s : TurnStore) (w : Entry) (offset : ℕ)
    (stop : Option (Fault DataFile)) {c : UInt64} (hc : c ≠ w.head.contextId) :
    (s.after w offset stop).heads.lookup c = s.heads.lookup c := by
  cases stop with
  | none =>
      simp only [TurnStore.after, TurnStore.addHead]
      rw [Finmap.lookup_insert_of_ne _ hc]
      rcases w with ⟨_ | t, head⟩ <;> rfl
  | some f => rw [after_some_heads]

/-- The stores agree on the turns of a history. -/
theorem Stores.SameTurns.agreeOn {s s' : Stores} {pack pack' : Bytes}
    (h : s.SameTurns z s' pack pack') (hlinked : s.turnStore.Linked) {k : UInt64}
    {vs : List TurnRecord} (hvs : Chain s.turnStore.forest k vs) :
    AgreeOn z s s' pack pack' vs :=
  fun r hr => (h _ r (hlinked.stored_of_chain hvs r hr)).2

/-- **Contexts with the same head show the same**, when stored turns stay. -/
theorem Stores.SameTurns.sameContext {s s' : Stores} {pack pack' : Bytes}
    (h : s.SameTurns z s' pack pack') (hlinked : s.turnStore.Linked) {c newTurnId : UInt64}
    (hhead : s'.turnStore.heads.lookup c = s.turnStore.heads.lookup c)
    (hother : ∀ k, k ≠ newTurnId → s.turnStore.turns.lookup k = none →
      s'.turnStore.turns.lookup k = none) :
    s.SameContext z s' pack pack' c newTurnId := by
  have hgetHead : s'.turnStore.getHead c = s.turnStore.getHead c := by
    rw [TurnStore.getHead, TurnStore.getHead, hhead]
  have hkept : ∀ k v, s.turnStore.forest.get k = some v → s'.turnStore.forest.get k = some v :=
    fun k v hv => (h k v hv).1
  have hmono : ∀ {k vs}, Chain s.turnStore.forest k vs → Chain s'.turnStore.forest k vs :=
    fun hvs => hvs.mono hkept rfl rfl
  have hpage : ∀ {k vs} (limit : ℕ) (includePayload : Bool), Chain s.turnStore.forest k vs →
      s'.withMeta z pack' includePayload (vs.take limit).reverse =
        s.withMeta z pack includePayload (vs.take limit).reverse := by
    intro k vs limit includePayload hvs
    exact (h.agreeOn hlinked hvs).withMeta
      (fun r hr => List.mem_of_mem_take (List.mem_reverse.mp hr)) includePayload
  have hlast : ∀ limit includePayload, s'.getLast z pack' c limit includePayload =
      s.getLast z pack c limit includePayload := by
    intro limit includePayload
    simp only [Stores.getLast, TurnStore.getLast, hgetHead, bind, Except.bind]
    cases hl : s.turnStore.heads.lookup c with
    | none => rw [TurnStore.getHead, hl]
    | some head =>
        obtain ⟨vs, hvs⟩ := hlinked.chain_of_head hl
        simp only [TurnStore.getHead, hl, TurnStore.walkBack_of_chain hvs,
          TurnStore.walkBack_of_chain (hmono hvs), pure, Except.pure]
        exact hpage limit.toNat includePayload hvs
  refine ⟨hgetHead, hlast, fun before limit includePayload hne => ?_⟩
  have hlast := hlast limit includePayload
  simp only [Stores.getLast, bind, Except.bind] at hlast
  simp only [Stores.getBefore, TurnStore.getBefore, hgetHead, bind, Except.bind]
  cases hl : s.turnStore.heads.lookup c with
  | none => rw [TurnStore.getHead, hl]
  | some head =>
      simp only [TurnStore.getHead, hl]
      by_cases hzero : before = 0 ∨ head.headTurnId = 0
      · rw [if_pos hzero, if_pos hzero]
        exact hlast
      · rw [if_neg hzero, if_neg hzero]
        cases hb : s.turnStore.turns.lookup before with
        | none => rw [hother before hne hb]
        | some r =>
            obtain ⟨vs, hvs⟩ := hlinked.chain_of_turn hb
            simp only [(h before r hb).1, TurnStore.walkBack_of_chain hvs,
              TurnStore.walkBack_of_chain (hmono hvs), pure, Except.pure]
            exact hpage limit.toNat includePayload hvs

/-- A put leaves the payloads of the stored turns as they are. -/
theorem Stores.Sound.put_payloads {s : Stores} {d d' : DataDir} (h : s.Sound (d .blobsPack))
    {hash : Hash} {raw : Bytes} {fault : Option (Fault DataFile)} {b : BlobStore}
    {x : Except StoreError BlobIndexEntry}
    (hrun : runCall (putIfAbsent z hash raw) s.blobStore d fault = (x, b, d')) {k : UInt64}
    {r : TurnRecord} (hr : s.turnStore.turns.lookup k = some r) :
    b.get z (d' .blobsPack) r.payloadHash =
      s.blobStore.get z (d .blobsPack) r.payloadHash := by
  obtain ⟨-, more, hmore⟩ := putIfAbsent_frame hrun
  obtain ⟨entry, hl⟩ := Finmap.mem_iff.mp (h.payload k r hr)
  have hl' : b.index.lookup r.payloadHash = some entry := by
    rw [putIfAbsent_run] at hrun
    split at hrun
    · obtain ⟨-, rfl, -⟩ := by simpa using hrun
      exact hl
    next hnone =>
      have hne : r.payloadHash ≠ hash := by
        rintro rfl
        rw [hnone] at hl
        cases hl
      split at hrun <;> obtain ⟨-, rfl, -⟩ := by simpa using hrun
      · exact (Finmap.lookup_insert_of_ne _ hne).trans hl
      · exact hl
  rw [hmore]
  exact BlobStore.get_append hl (h.within _ _ hl) hl' more

/-- **An append is isolated.** Whatever its parent and whatever its outcome, it leaves every
other context as it was, and all the turns that were stored. -/
theorem Stores.Sound.append_isolated {s s' : Stores} {d d' : DataDir}
    (h : s.Sound (d .blobsPack)) {r : AppendRequest} {now : UInt64}
    {fault : Option (Fault DataFile)} {x : Except StoreError TurnRecord}
    (hrun : runCall (Stores.appendTurn z blake3 r now) s d fault = (x, s', d')) :
    s.SameTurns z s' (d .blobsPack) (d' .blobsPack) ∧ ∀ c, c ≠ r.contextId →
      s.SameContext z s' (d .blobsPack) (d' .blobsPack) c s.turnStore.nextTurnId := by
  suffices hsame : s.SameTurns z s' (d .blobsPack) (d' .blobsPack) ∧
      (∀ c, c ≠ r.contextId → s'.turnStore.heads.lookup c = s.turnStore.heads.lookup c) ∧
      ∀ k, k ≠ s.turnStore.nextTurnId →
        s'.turnStore.turns.lookup k = s.turnStore.turns.lookup k by
    obtain ⟨hturns, hheads, hother⟩ := hsame
    exact ⟨hturns, fun c hc => hturns.sameContext h.linked (hheads c hc) fun k hk hnone =>
      (hother k hk).trans hnone⟩
  rw [Stores.appendTurn_run] at hrun
  split at hrun
  · obtain ⟨-, rfl, rfl⟩ := by simpa using hrun
    exact ⟨fun k r hr => ⟨hr, rfl, rfl⟩, fun _ _ => rfl, fun _ _ => rfl⟩
  next raw hraw =>
  rcases hput : runCall (putIfAbsent z r.contentHash raw) s.blobStore d fault with ⟨y, b, d₁⟩
  rw [hput] at hrun
  have hpayloads := fun k t => h.put_payloads hput (k := k) (r := t)
  cases y with
  | error e =>
      obtain ⟨-, rfl, rfl⟩ := by simpa using hrun
      exact ⟨fun k t ht => ⟨ht, rfl, hpayloads k t ht⟩, fun _ _ => rfl, fun _ _ => rfl⟩
  | ok entry =>
      dsimp only at hrun
      rw [Cxdb.appendTurn_outcome] at hrun
      have hentry : s.turnStore.entryOf now (.appendTurn r.args) =
          (s.turnStore.parentOf r.args.contextId r.args.parentTurnId).map fun p =>
            r.args.entry s.turnStore.nextTurnId p now := rfl
      cases hp : s.turnStore.parentOf r.args.contextId r.args.parentTurnId with
      | error e =>
          rw [hp] at hrun
          obtain ⟨-, rfl, rfl⟩ := by simpa using hrun
          exact ⟨fun k t ht => ⟨ht, rfl, hpayloads k t ht⟩, fun _ _ => rfl, fun _ _ => rfl⟩
      | ok p =>
          rw [hp] at hrun hentry
          obtain ⟨-, rfl, rfl⟩ := by simpa using hrun
          have hne : ∀ {k t}, s.turnStore.turns.lookup k = some t →
              k ≠ s.turnStore.nextTurnId := by
            rintro k t ht rfl
            exact h.linked.fresh (Finmap.mem_of_lookup_eq_some ht)
          refine ⟨fun k t ht => ⟨?_, ?_, ?_⟩, fun c hc => ?_, fun k hk => ?_⟩
          · exact (TurnStore.after_of_ne hentry _ _ (hne ht)).1.trans ht
          · rw [TurnStore.getTurnMeta, TurnStore.getTurnMeta]
            dsimp only
            rw [(TurnStore.after_of_ne hentry _ _ (hne ht)).2]
          · rw [Entry.onto_of_notMem _ _ _ (by decide)]
            exact hpayloads k t ht
          · exact TurnStore.after_heads_of_ne _ _ _ _ hc
          · exact (TurnStore.after_of_ne hentry _ _ hk).1

/-! ### A forked context -/

/-- The turns of a map as a forest. -/
def turnForest (turns : HashMap UInt64 TurnRecord) : Forest UInt64 TurnRecord :=
  ⟨fun k => turns.lookup k, TurnRecord.parentTurnId, 0⟩

/-- The history of the context `f` ends with `path`. -/
def OnTop (f : UInt64) (path : List TurnRecord) (turns : HashMap UInt64 TurnRecord)
    (heads : HashMap UInt64 ContextHead) : Prop :=
  ∃ head vs, heads.lookup f = some head ∧ Chain (turnForest turns) head.headTurnId vs ∧
    path <:+ vs

/-- More turns change no history. -/
theorem chain_of_more {turns turns' : HashMap UInt64 TurnRecord}
    (hmore : ∀ k r, turns.lookup k = some r → turns'.lookup k = some r) {k : UInt64}
    {vs : List TurnRecord} (h : Chain (turnForest turns) k vs) :
    Chain (turnForest turns') k vs := by
  have hget : ∀ k r, (turnForest turns).get k = some r → (turnForest turns').get k = some r :=
    hmore
  exact h.mono hget rfl rfl

section

variable {f : UInt64} {path : List TurnRecord} {turns turns' : HashMap UInt64 TurnRecord}
  {heads heads' : HashMap UInt64 ContextHead}

/-- More turns and other heads. -/
theorem OnTop.of_same_head (h : OnTop f path turns heads)
    (hmore : ∀ k r, turns.lookup k = some r → turns'.lookup k = some r)
    (hhead : heads'.lookup f = heads.lookup f) : OnTop f path turns' heads' := by
  obtain ⟨head, vs, hl, hvs, hsuffix⟩ := h
  exact ⟨head, vs, hhead.trans hl, chain_of_more hmore hvs, hsuffix⟩

/-- One more turn on top. -/
theorem OnTop.push (h : OnTop f path turns heads)
    (hmore : ∀ k r, turns.lookup k = some r → turns'.lookup k = some r) (t : TurnRecord)
    (head' : ContextHead) (hzero : t.turnId ≠ 0) (ht : turns'.lookup t.turnId = some t)
    (hparent : ∀ head, heads.lookup f = some head → t.parentTurnId = head.headTurnId)
    (hhead' : heads'.lookup f = some head') (hid : head'.headTurnId = t.turnId) :
    OnTop f path turns' heads' := by
  obtain ⟨head, vs, hl, hvs, hsuffix⟩ := h
  refine ⟨head', t :: vs, hhead', ?_, hsuffix.trans (List.suffix_cons t vs)⟩
  rw [hid]
  refine .node hzero ht ?_
  change Chain (turnForest turns') t.parentTurnId vs
  rw [hparent head hl]
  exact chain_of_more hmore hvs

end

/-- What the call does to the context `f` is an append to its head, if anything. -/
def TurnCall.Extends (f : UInt64) (s : TurnStore) : TurnCall → Prop
  | .createContext _ | .forkContext _ => s.nextContextId ≠ f
  | .appendTurn a => a.contextId = f → a.parentTurnId = 0

instance (f : UInt64) (s : TurnStore) (c : TurnCall) : Decidable (c.Extends f s) :=
  match c with
  | .createContext _ | .forkContext _ => inferInstanceAs (Decidable (_ ≠ _))
  | .appendTurn _ => inferInstanceAs (Decidable (_ → _))

/-- An append to the head of `f` puts its turn on top. -/
theorem TurnCall.Extends.turn {f : UInt64} {s : TurnStore} {c : TurnCall} {now : UInt64}
    {w : Entry} (h : c.Extends f s) (hlinked : s.Linked) (hw : s.entryOf now c = .ok w)
    (hf : w.head.contextId = f) :
    ∃ t, w.turn = some t ∧ w.head.headTurnId = t.1.turnId ∧
      ∀ head, s.heads.lookup f = some head → t.1.parentTurnId = head.headTurnId := by
  cases c with
  | createContext base | forkContext base =>
      obtain ⟨b, -, rfl⟩ := entryOf_create hw
      exact absurd hf h
  | appendTurn a =>
      obtain ⟨q, hq, rfl⟩ := entryOf_append hw
      obtain rfl : a.contextId = f := hf
      refine ⟨_, rfl, rfl, fun head hhead => ?_⟩
      change q.1 = head.headTurnId
      rcases parentOf_ok hq with ⟨hne, -⟩ | ⟨-, head', hhead', ⟨h0, rfl⟩ | ⟨-, r, hr, rfl⟩⟩
      · exact absurd (h rfl) hne
      · obtain rfl := Option.some.inj (hhead.symm.trans hhead')
        exact h0.symm
      · obtain rfl := Option.some.inj (hhead.symm.trans hhead')
        exact hlinked.turnId _ r hr

/-- The context `f` is on top of `path`, in the files and in memory. -/
structure Follows (f : UInt64) (path : List TurnRecord) (j : Journal) (m : TurnSystem) :
    Prop where
  stored : OnTop f path (turnMap j.turns) (headMap j.heads)
  live : ∀ s, m.proc = some s → OnTop f path s.turns s.heads

/-- The turns of a linked store stay when a call adds its turn. -/
theorem TurnStore.Linked.lookup_after {s : TurnStore} (h : s.Linked) {now : UInt64}
    {c : TurnCall} {w : Entry} (hw : s.entryOf now c = .ok w) (offset : ℕ)
    (stop : Option (Fault DataFile)) {k : UInt64} {r : TurnRecord}
    (hr : s.turns.lookup k = some r) : (s.after w offset stop).turns.lookup k = some r := by
  refine (TurnStore.after_of_ne hw offset stop ?_).1.trans hr
  rintro rfl
  exact h.fresh (Finmap.mem_of_lookup_eq_some hr)

/-- The stored turns stay when more come. -/
theorem turnMap_lookup_append {turns more : List TurnRecord}
    (hinc : ((turns ++ more).map TurnRecord.turnId).Pairwise (· < ·)) {k : UInt64}
    {r : TurnRecord} (hr : (turnMap turns).lookup k = some r) :
    (turnMap (turns ++ more)).lookup k = some r := by
  obtain ⟨hmem, rfl⟩ := turnMap_lookup_inv hr
  exact turnMap_lookup hinc (List.mem_append_left _ hmem)

/-- **A step keeps the context on top of the path.** -/
theorem Follows.step {f : UInt64} {path : List TurnRecord} {es : List TurnEvent}
    {m m' : TurnSystem} {e : TurnEvent} (h : Follows f path (journalOf es) m)
    (hkept : TurnsKept (journalOf es) m) (hs : TurnStep m e m') (hkeeps : KeepsTurns m e)
    (hextends : ∀ s, m.proc = some s → ∀ p ∈ e.call, p.1.Extends f s) :
    Follows f path (journalOf (es ++ [e])) m' := by
  have hkept' := hkept.step hs hkeeps
  rcases hs.cases with ⟨rfl, s, d', ho, rfl⟩ | ⟨c, now, err, s, rfl, -, -, rfl⟩ |
    ⟨c, now, w, stop, s, hw, hcall, hproc, hentry, -, -, hproc'⟩
  · rw [journalOf_concat_of_no_write rfl]
    refine ⟨h.stored, ?_⟩
    rintro s' hs'
    obtain rfl := Option.some.inj hs'
    rw [(hkept.log.opened ho).1, (hkept.heads.opened ho).1]
    exact h.stored
  · rwa [journalOf_concat_of_no_write rfl]
  · rw [journalOf_concat_of_write hw] at hkept' ⊢
    have hlive := h.live s hproc
    have hlinked := hkept.linked s hproc
    have hzero := hkept.counter s hproc
    have hturn := fun hf => (hextends s hproc (c, now) hcall).turn hlinked hentry hf
    have hinc := hkept'.log.increasing
    refine ⟨?_, ?_⟩
    · -- The files: a head that is written comes after its turn.
      have hmore := fun k r => turnMap_lookup_append hinc (k := k) (r := r)
      by_cases hsaved : (w.saved stop).heads ≠ [] ∧ w.head.contextId = f
      · obtain ⟨hsaved, hf⟩ := hsaved
        obtain ⟨t, ht, hid, hparent⟩ := hturn hf
        have hwhole : whole stop .headsTbl (encodeContextHead w.head).length = true := by
          by_contra hnot
          exact hsaved (if_neg hnot)
        have hheads : (w.saved stop).heads = [w.head] := if_pos hwhole
        have hturns : (w.saved stop).turns = [t.1] := by
          simp only [Entry.saved, ht]
          rw [if_pos (whole_of_rank_lt (by decide) hwhole)]
        refine hlive.push (fun k r hr => ?_) t.1 w.head ?_ ?_ hparent ?_ hid
        · obtain hmem := hkept.logged s hproc k r hr
          rw [← hlinked.turnId k r hr]
          exact turnMap_lookup hinc (List.mem_append_left _ hmem)
        · rw [entryOf_turnId hentry ht]
          exact hzero
        · refine turnMap_lookup hinc (List.mem_append_right _ ?_)
          rw [hturns]
          exact List.mem_singleton_self _
        · rw [Journal.append_heads, hheads, headMap_concat, hf]
          exact Finmap.lookup_insert _
      · refine h.stored.of_same_head hmore ?_
        rw [Journal.append_heads]
        by_cases hnone : (w.saved stop).heads = []
        · rw [hnone, List.append_nil]
        · have hf : w.head.contextId ≠ f := fun hf => hsaved ⟨hnone, hf⟩
          have hheads : (w.saved stop).heads = [w.head] := by
            simp only [Entry.saved] at hnone ⊢
            split at hnone
            next hwhole => rw [if_pos hwhole]
            · exact absurd rfl hnone
          rw [hheads, headMap_concat, Finmap.lookup_insert_of_ne _ hf.symm]
    · -- The process: the head moves when the call has returned.
      intro s' hs'
      rw [hproc'] at hs'
      split at hs'
      · obtain rfl := Option.some.inj hs'
        have hmore := fun k r => hlinked.lookup_after hentry (m.disk .turnsLog).length stop
          (k := k) (r := r)
        by_cases hmoved : stop = none ∧ w.head.contextId = f
        · obtain ⟨rfl, hf⟩ := hmoved
          obtain ⟨t, ht, hid, hparent⟩ := hturn hf
          refine hlive.push hmore t.1 w.head ?_ ?_ hparent ?_ hid
          · rw [entryOf_turnId hentry ht]
            exact hzero
          · simp only [TurnStore.after, TurnStore.addHead, TurnStore.addTurn,
              TurnStore.takeId, ht]
            exact Finmap.lookup_insert _
          · rw [TurnStore.after, TurnStore.addHead, hf]
            exact Finmap.lookup_insert _
        · refine hlive.of_same_head hmore ?_
          cases stop with
          | none =>
              exact TurnStore.after_heads_of_ne s w _ none
                fun hf => hmoved ⟨rfl, hf.symm⟩
          | some g => rw [TurnStore.after_some_heads]
      · cases hs'

/-! ### The store -/

/-- What the step does to the context `f` is an append to its head, if anything. -/
def StoreAct.Extends (f : UInt64) (m : StoreSystem) : StoreAct → Prop
  | .opening => True
  | .call c _ _ _ => ∀ s ∈ m.proc, ∀ tc ∈ c.turnCall, TurnCall.Extends f s.turnStore tc

instance (f : UInt64) (m : StoreSystem) (a : StoreAct) : Decidable (a.Extends f m) :=
  match a with
  | .opening => inferInstanceAs (Decidable True)
  | .call c _ _ _ => inferInstanceAs
      (Decidable (∀ s ∈ m.proc, ∀ tc ∈ c.turnCall, TurnCall.Extends f s.turnStore tc))

/-- The call of the turn store that a step makes is one of the step's call. -/
theorem StoreCall.turnEvent?_call {c : StoreCall} {s : Stores} {now : UInt64}
    {fault : Option (Fault DataFile)} {e : TurnEvent}
    (he : e ∈ c.turnEvent? z blake3 s now fault) : ∃ tc ∈ c.turnCall, e.call = some (tc, now) := by
  rw [StoreCall.turnEvent?] at he
  split at he
  · obtain ⟨tc, htc, he⟩ := Option.bind_eq_some_iff.mp he
    obtain ⟨w, -, he⟩ := Option.bind_eq_some_iff.mp he
    obtain rfl := Option.some.inj he
    refine ⟨tc, htc, ?_⟩
    rw [Entry.event]
    split <;> rfl
  · cases he

/-- The context `f` is on top of `path`, and the stores are kept. -/
def KeptFollows (f : UInt64) (path : List TurnRecord) (m : StoreSystem) : Prop :=
  ∃ es entries, StoreKept es entries m ∧ Follows f path (journalOf es) m.turns

/-- Every step keeps a forked context on top. -/
theorem KeptFollows.step {f : UInt64} {path : List TurnRecord} {m m' : StoreSystem}
    {a : StoreAct} (h : KeptFollows f path m) (hkeeps : KeepsRecords z blake3 m a)
    (hextends : a.Extends f m) (hs : m.act z blake3 a = some m') : KeptFollows f path m' := by
  obtain ⟨es, entries, hkept, hfollows⟩ := h
  obtain ⟨more, hkept'⟩ := hkept.step hs hkeeps
  refine ⟨_, _, hkept', ?_⟩
  obtain ⟨t, hstep, ht⟩ := StoreSystem.act_turns hs
  suffices hnew : Follows f path (journalOf (es ++ (m.turnEvent? z blake3 a).toList)) t by
    rcases ht with ht | ht
    · rwa [ht]
    · rw [ht]
      exact ⟨hnew.stored, fun s hs => by cases hs⟩
  cases he : m.turnEvent? z blake3 a with
  | none =>
      rw [he] at hstep
      obtain rfl := hstep
      rwa [Option.toList_none, List.append_nil]
  | some e =>
      rw [he] at hstep
      refine hfollows.step hkept.turns hstep (hkeeps.2 e he) ?_
      intro s hproc p hp
      cases a with
      | opening =>
          obtain rfl := Option.some.inj he
          cases hp
      | call c now fault dies =>
          obtain ⟨s₀, hs₀, he⟩ := Option.bind_eq_some_iff.mp he
          obtain rfl : s₀.turnStore = s := by
            rw [StoreSystem.turns, hs₀] at hproc
            exact Option.some.inj hproc
          obtain ⟨tc, htc, hcall⟩ := StoreCall.turnEvent?_call he
          obtain rfl := Option.some.inj (hcall.symm.trans hp)
          exact hextends s₀ hs₀ tc htc

/-- A fork that returns has written the head of the new context. -/
theorem forkContext_entry {s s' : Stores} {d d' : DataDir} {base now : UInt64}
    {fault : Option (Fault DataFile)} {head : ContextHead}
    (hrun : runCall ((StoreCall.forkContext base).run z blake3 now) s d fault =
      (.ok (.context head), s', d')) :
    s.turnStore.entryOf now (.forkContext base) = .ok ⟨none, head⟩ ∧
      Entry.stop ⟨none, head⟩ fault = none := by
  rw [(isContextCall_fork base).run_call, TurnCall.run_eq] at hrun
  cases hw : s.turnStore.entryOf now (.forkContext base) with
  | error e =>
      rw [hw] at hrun
      cases (Prod.mk.inj hrun).1
  | ok w =>
      obtain ⟨b, -, rfl⟩ := entryOf_create hw
      rw [hw] at hrun
      obtain ⟨hreply, -⟩ := Prod.mk.inj hrun
      simp only [Entry.outcome] at hreply
      split at hreply
      next hstop =>
        obtain ⟨rfl⟩ := StoreReply.context.inj (Except.ok.inj hreply)
        exact ⟨rfl, hstop⟩
      · cases hreply

/-- The head of a fork names the turn that it was forked at. -/
theorem TurnStore.Linked.fork_headTurn {s : TurnStore} (h : s.Linked) {base now : UInt64}
    {head : ContextHead} (hw : s.entryOf now (.forkContext base) = .ok ⟨none, head⟩) :
    head.headTurnId = base := by
  obtain ⟨b, hb, hhead⟩ := entryOf_create hw
  obtain ⟨-, rfl⟩ := Entry.mk.inj hhead
  rcases baseOf_ok hb with ⟨rfl, rfl⟩ | ⟨-, r, hr, rfl⟩
  · rfl
  · exact h.turnId base r hr

/-- **A fork puts the new context on top of its base.** -/
theorem StoreKept.fork {es : List TurnEvent} {entries : List (Hash × BlobIndexEntry)}
    {m m' : StoreSystem} (h : StoreKept es entries m) {s s' : Stores} {base now : UInt64}
    {fault : Option (Fault DataFile)} {dies : Bool} {head : ContextHead} {d' : DataDir}
    (hproc : m.proc = some s)
    (hkeeps : KeepsRecords z blake3 m (.call (.forkContext base) now fault dies))
    (hs : m.act z blake3 (.call (.forkContext base) now fault dies) = some m')
    (hrun : runCall ((StoreCall.forkContext base).run z blake3 now) s m.disk fault =
      (.ok (.context head), s', d'))
    {path : List TurnRecord} (hpath : Chain s.turnStore.forest base path) :
    KeptFollows head.contextId path m' := by
  obtain ⟨hw, hstop⟩ := forkContext_entry hrun
  have hlinked := (h.sound hproc).linked
  have hhead := hlinked.fork_headTurn hw
  have hevent : m.turnEvent? z blake3 (.call (.forkContext base) now fault dies) =
      some (.acked (.forkContext base) now ⟨none, head⟩) := by
    simp only [StoreSystem.turnEvent?, hproc, Option.bind_some]
    rw [turnEvent?_of_proceeds (c := .forkContext base) rfl trivial, hw]
    simp only [Except.toOption, Option.map_some, Entry.event, hstop]
  obtain ⟨more, hkept'⟩ := h.step hs hkeeps
  refine ⟨_, _, hkept', ?_⟩
  rw [hevent] at hkept' ⊢
  have hwrite : TurnEvent.write (.acked (.forkContext base) now ⟨none, head⟩) =
      some (⟨none, head⟩, none) := rfl
  have hnew : m'.proc = none ∨ m'.proc = some s' := by
    obtain ⟨s₀, hs₀, hact⟩ := Option.bind_eq_some_iff.mp hs
    obtain rfl := Option.some.inj (hs₀.symm.trans hproc)
    simp only [hrun] at hact
    split at hact
    · obtain rfl := Option.some.inj hact
      dsimp only
      split
      · exact Or.inl rfl
      · exact Or.inr rfl
    · cases hact
  have hs' : s'.turnStore = s.turnStore.after ⟨none, head⟩ (m.disk .turnsLog).length none := by
    rw [(isContextCall_fork base).run_call, TurnCall.run_eq, hw] at hrun
    simp only [Entry.outcome, hstop] at hrun
    rw [← (Prod.mk.inj (Prod.mk.inj hrun).2).1]
  rw [Option.toList_some, journalOf_concat_of_write hwrite]
  have hsuffix : path <:+ path := List.suffix_refl path
  refine ⟨⟨head, path, ?_, ?_, hsuffix⟩, fun t ht => ⟨head, path, ?_, ?_, hsuffix⟩⟩
  · rw [Journal.append_heads, Entry.saved_none, headMap_concat]
    exact Finmap.lookup_insert _
  · rw [hhead]
    refine chain_of_more (fun k r hr => ?_) hpath
    have hlogged := h.turns.logged s.turnStore (by rw [StoreSystem.turns, hproc]; rfl) k r hr
    rw [← hlinked.turnId k r hr, Journal.append_turns, Entry.saved_none]
    exact turnMap_lookup (by simpa using h.turns.log.increasing) (by simpa using hlogged)
  all_goals
    have ht : t = s.turnStore.after ⟨none, head⟩ (m.disk .turnsLog).length none := by
      rcases hnew with hnew | hnew
      · rw [StoreSystem.turns, hnew] at ht
        cases ht
      · rw [StoreSystem.turns, hnew] at ht
        exact (Option.some.inj ht).symm.trans hs'
    rw [ht]
  · exact Finmap.lookup_insert _
  · rw [hhead]
    exact hpath

/-- **Forks are isolated** in every state of every run that writes no turn, no head and no
index entry behind a torn record. An append, whatever its parent and its outcome, leaves
every other context and every stored turn as they were; and a forked context stays on top of
the path of the turn that it was forked at, as long as what is done to it are appends that
name no parent. -/
theorem fork_isolation {acts : List StoreAct} {m : StoreSystem}
    (h : Run (Guarded (KeepsRecords z blake3) (Steps (StoreSystem.act z blake3)))
      StoreSystem.initial acts m) {s : Stores} (hs : m.proc = some s) :
    (∀ r now fault x s' d',
      runCall (Stores.appendTurn z blake3 r now) s m.disk fault = (x, s', d') →
        s.SameTurns z s' (m.disk .blobsPack) (d' .blobsPack) ∧ ∀ c, c ≠ r.contextId →
          s.SameContext z s' (m.disk .blobsPack) (d' .blobsPack) c s.turnStore.nextTurnId) ∧
    ∀ base now fault dies head s' d' m₁,
      runCall ((StoreCall.forkContext base).run z blake3 now) s m.disk fault =
        (.ok (.context head), s', d') →
      KeepsRecords z blake3 m (.call (.forkContext base) now fault dies) →
      m.act z blake3 (.call (.forkContext base) now fault dies) = some m₁ →
      ∀ path, Chain s.turnStore.forest base path → ∀ acts' m₂,
        Run (Guarded (fun m a => KeepsRecords z blake3 m a ∧ a.Extends head.contextId m)
          (Steps (StoreSystem.act z blake3))) m₁ acts' m₂ →
        ∀ s₂, m₂.proc = some s₂ → ∃ head₂ vs,
          s₂.turnStore.heads.lookup head.contextId = some head₂ ∧
          Chain s₂.turnStore.forest head₂.headTurnId vs ∧ path <:+ vs ∧
          ∀ limit, s₂.turnStore.getLast head.contextId limit =
            .ok (vs.take limit.toNat).reverse := by
  obtain ⟨es, entries, hkept⟩ := storeKept_of_run h
  refine ⟨fun r now fault x s' d' hrun => (hkept.sound hs).append_isolated hrun, ?_⟩
  intro base now fault dies head s' d' m₁ hrun hkeeps hact path hpath acts' m₂ hlater s₂ hs₂
  have hfork := hkept.fork hs hkeeps hact hrun hpath
  obtain ⟨es₂, entries₂, hkept₂, hfollows⟩ : KeptFollows head.contextId path m₂ := by
    refine hlater.invariant (I := fun _ m => KeptFollows head.contextId path m) hfork ?_
    rintro _ m a m' hfollows ⟨⟨hkeeps, hextends⟩, hstep⟩
    exact hfollows.step hkeeps hextends hstep
  obtain ⟨head₂, vs, hl, hvs, hsuffix⟩ :=
    hfollows.live s₂.turnStore (by rw [StoreSystem.turns, hs₂]; rfl)
  obtain ⟨vs', hvs', hlast⟩ := (hkept₂.sound hs₂).linked.getLast hl
  obtain rfl := hvs'.unique hvs
  exact ⟨head₂, vs', hl, hvs', hsuffix, hlast⟩

/-- The fork of a context at its first turn. -/
def forkAct : StoreAct := .call (.forkContext 1) 3 none false

/-- A turn on both contexts, and a reopening. -/
def laterActs : List StoreAct := [emptyAct 1 4 none, emptyAct 2 5 none, .opening]

set_option maxRecDepth 4000 in
/-- `fork_isolation` when a fork at turn 1 gets a turn and the directory is opened again. -/
theorem fork_isolation_twoTurnActs :
    ∃ m s m₁ m₂ s₂,
      Run (Guarded (KeepsRecords rawBlockZstd fun _ => emptyHash)
        (Steps (StoreSystem.act rawBlockZstd fun _ => emptyHash))) StoreSystem.initial
        twoTurnActs m ∧ m.proc = some s ∧
      m.act rawBlockZstd (fun _ => emptyHash) forkAct = some m₁ ∧
      Run (Guarded (fun m a => KeepsRecords rawBlockZstd (fun _ => emptyHash) m a ∧
          a.Extends 2 m) (Steps (StoreSystem.act rawBlockZstd fun _ => emptyHash)))
        m₁ laterActs m₂ ∧ m₂.proc = some s₂ ∧
      ∀ path, Chain s.turnStore.forest 1 path → ∃ head₂ vs,
        s₂.turnStore.heads.lookup 2 = some head₂ ∧
        Chain s₂.turnStore.forest head₂.headTurnId vs ∧ path <:+ vs := by
  obtain ⟨m, hrun, hproc, hkeeps, hreply, hlater⟩ := exists_run_of_foldlM
    (KeepsRecords rawBlockZstd fun _ => emptyHash)
    (StoreSystem.act rawBlockZstd fun _ => emptyHash) StoreSystem.initial twoTurnActs
    (fun m => m.proc.isSome = true ∧
      KeepsRecords rawBlockZstd (fun _ => emptyHash) m forkAct ∧
      (∀ s ∈ m.proc, (runCall ((StoreCall.forkContext 1).run rawBlockZstd
        (fun _ => emptyHash) 3) s m.disk none).1.toOption =
          some (.context ⟨2, 1, 0, 3, 0⟩)) ∧
      ((m.act rawBlockZstd (fun _ => emptyHash) forkAct).any fun m₁ =>
        (laterActs.foldlM
          (fun m a => if KeepsRecords rawBlockZstd (fun _ => emptyHash) m a ∧ a.Extends 2 m
            then m.act rawBlockZstd (fun _ => emptyHash) a else none) m₁).any
              fun m₂ => decide (m₂.proc.isSome = true)) = true)
    (by decide +kernel)
  obtain ⟨s, hs⟩ := Option.isSome_iff_exists.mp hproc
  obtain ⟨m₁, hact, hlater⟩ := (Option.any_eq_true _ _).mp hlater
  obtain ⟨m₂, hrun₂, hproc₂⟩ := (Option.any_eq_true _ _).mp hlater
  obtain ⟨s₂, hs₂⟩ := Option.isSome_iff_exists.mp (of_decide_eq_true hproc₂)
  refine ⟨m, s, m₁, m₂, s₂, hrun, hs, hact, run_of_foldlM hrun₂, hs₂, fun path hpath => ?_⟩
  rcases hfork : runCall ((StoreCall.forkContext 1).run rawBlockZstd (fun _ => emptyHash) 3) s
    m.disk none with ⟨x, s', d'⟩
  have hreply := hreply s hs
  rw [hfork] at hreply
  cases x with
  | error e => cases hreply
  | ok reply =>
      obtain rfl := Option.some.inj hreply
      obtain ⟨head₂, vs, hl, hvs, hsuffix, -⟩ := (fork_isolation hrun hs).2 1 3 none false _ s'
        d' m₁ hfork hkeeps hact path hpath laterActs m₂ (run_of_foldlM hrun₂) s₂ hs₂
      exact ⟨head₂, vs, hl, hvs, hsuffix⟩

/-- An append stops in the log and the process goes on, so that the opening cuts off the
turn of the next one, which the head of context 1 names; its id is free again. -/
def lostTurnActs : List StoreAct :=
  [.opening, .call (.createContext 0) 0 none false, emptyAct 1 1 (some ⟨.turnsLog, 10⟩),
    emptyAct 1 2 none, .opening, .call (.createContext 0) 3 none false, emptyAct 2 4 none]

set_option maxRecDepth 4000 in
/-- **An append that is not isolated**: turn 2 of context 2 becomes the head of context 1. -/
theorem lost_turn_breaks_isolation :
    ∃ m s x s' d', Run (Guarded (fun _ _ => True)
        (Steps (StoreSystem.act rawBlockZstd fun _ => emptyHash))) StoreSystem.initial
        lostTurnActs m ∧ m.proc = some s ∧
      runCall (Stores.appendTurn rawBlockZstd (fun _ => emptyHash) (emptyTurn 2) 5) s m.disk
        none = (.ok x, s', d') ∧
      (s.turnStore.getLast 1 64).toOption = none ∧
      (s'.turnStore.getLast 1 64).toOption.map (List.map TurnRecord.turnId) =
        some [1, 2] := by
  obtain ⟨m, hrun, hproc, hbefore, hok, hafter⟩ := exists_run_of_foldlM (fun _ _ => True)
    (StoreSystem.act rawBlockZstd fun _ => emptyHash) StoreSystem.initial lostTurnActs
    (fun m => m.proc.isSome = true ∧ ((∀ s ∈ m.proc, (s.turnStore.getLast 1 64).toOption = none) ∧
      (∀ s ∈ m.proc, (runCall (Stores.appendTurn rawBlockZstd (fun _ => emptyHash) (emptyTurn 2) 5)
        s m.disk none).1.toOption.isSome = true) ∧
      ∀ s ∈ m.proc, ((runCall (Stores.appendTurn rawBlockZstd (fun _ => emptyHash) (emptyTurn 2)
        5) s m.disk none).2.1.turnStore.getLast 1 64).toOption.map
          (List.map TurnRecord.turnId) = some [1, 2]))
    (by decide +kernel)
  obtain ⟨s, hs⟩ := Option.isSome_iff_exists.mp hproc
  rcases happend : runCall (Stores.appendTurn rawBlockZstd (fun _ => emptyHash) (emptyTurn 2) 5)
    s m.disk none with ⟨x, s', d'⟩
  have hok := hok s hs
  have hafter := hafter s hs
  rw [happend] at hok hafter
  cases x with
  | error e => cases hok
  | ok x => exact ⟨m, s, x, s', d', hrun, hs, happend, hbefore s hs, hafter⟩

end Cxdb
