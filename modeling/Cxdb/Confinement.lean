import Cxdb.ExceptLoops
import Cxdb.StoreCalls
import Cxdb.StoreInvariant

/-!
# What a Context Shows

`get_last` walks back from the head of its context. `get_before` looks the context up, but
walks back from the turn that it is given, whatever context that turn belongs to.

## Main results

* `TurnStore.Linked.getBefore_confined_iff`: when a page before a turn lies within the history
  of the context.
* `context_confined_iff`: the same in every state reached; and what a context shows, asked
  for turns of its own, depends on its own history only.
* `foreign_cursor_leaks`: a page of one context with a turn of another one.
-/

open ByteFormat FaultyDisk RecordLog LastWrite Transition ParentChain ExceptLoops

namespace Cxdb

/-- The turn that comes before the given one is none, or one of the history. -/
def StartsWithin (s : TurnStore) (vs : List TurnRecord) (before : UInt64) : Prop :=
  ∀ b, s.turns.lookup before = some b →
    b.parentTurnId = 0 ∨ ∃ r ∈ vs, r.turnId = b.parentTurnId

section

variable {s : TurnStore} {c : UInt64} {head : ContextHead} {vs : List TurnRecord}

/-- The history above a turn of a history is part of it. -/
theorem TurnStore.Linked.chain_of_mem (h : s.Linked) {k : UInt64}
    (hvs : Chain s.forest k vs) {r : TurnRecord} (hr : r ∈ vs) :
    ∃ older newer, vs = newer ++ older ∧ Chain s.forest r.turnId older := by
  obtain ⟨newer, rest, rfl⟩ := List.append_of_mem hr
  refine ⟨r :: rest, newer, rfl, .node ?_ (h.stored_of_chain hvs r hr) hvs.behind.2⟩
  intro h0
  have hstored := h.stored_of_chain hvs r hr
  rw [show r.turnId = 0 from h0, h.zero] at hstored
  cases hstored

/-- `get_last` in terms of the history. -/
theorem TurnStore.Linked.getLast_of_chain (h : s.Linked) (hhead : s.heads.lookup c = some head)
    (hvs : Chain s.forest head.headTurnId vs) (limit : UInt32) :
    s.getLast c limit = .ok (vs.take limit.toNat).reverse := by
  obtain ⟨ws, hws, hlast⟩ := h.getLast hhead
  obtain rfl := hws.unique hvs
  exact hlast limit

/-- `get_before` in terms of the history of the turn that it is given. -/
theorem TurnStore.Linked.getBefore_of_chain (hhead : s.heads.lookup c = some head)
    {before : UInt64} (hne : ¬(before = 0 ∨ head.headTurnId = 0)) {b : TurnRecord}
    (hb : s.turns.lookup before = some b) {ws : List TurnRecord}
    (hws : Chain s.forest b.parentTurnId ws) (limit : UInt32) :
    s.getBefore c before limit = .ok (ws.take limit.toNat).reverse := by
  rw [TurnStore.getBefore, TurnStore.getHead, hhead]
  simp only [bind, Except.bind, pure, Except.pure]
  rw [if_neg hne, hb]
  dsimp only
  rw [TurnStore.walkBack_of_chain hws]

/-- **When a page before a turn lies within the history of the context.** -/
theorem TurnStore.Linked.getBefore_confined_iff (h : s.Linked)
    (hhead : s.heads.lookup c = some head) (hvs : Chain s.forest head.headTurnId vs)
    {before : UInt64} {limit : UInt32} {page : List TurnRecord}
    (hpage : s.getBefore c before limit = .ok page) :
    (∀ r ∈ page, r ∈ vs) ↔
      before = 0 ∨ head.headTurnId = 0 ∨ limit = 0 ∨ StartsWithin s vs before := by
  by_cases hlast : before = 0 ∨ head.headTurnId = 0
  · -- The last page.
    rw [TurnStore.getBefore, TurnStore.getHead, hhead] at hpage
    simp only [bind, Except.bind] at hpage
    rw [if_pos hlast, h.getLast_of_chain hhead hvs] at hpage
    obtain rfl := Except.ok.inj hpage
    refine iff_of_true (fun r hr => List.mem_of_mem_take (List.mem_reverse.mp hr)) ?_
    exact hlast.imp_right Or.inl
  rw [not_or] at hlast
  cases hb : s.turns.lookup before with
  | none =>
      rw [TurnStore.getBefore, TurnStore.getHead, hhead] at hpage
      simp only [bind, Except.bind] at hpage
      rw [if_neg (not_or.mpr hlast), hb] at hpage
      cases hpage
  | some b =>
      obtain ⟨ws, hws⟩ := h.chain_of_turn hb
      rw [TurnStore.Linked.getBefore_of_chain hhead (not_or.mpr hlast) hb hws] at hpage
      obtain rfl := Except.ok.inj hpage
      constructor
      · intro hall
        refine Or.inr (Or.inr (or_iff_not_imp_left.mpr fun hlimit b' hb' => ?_))
        obtain rfl := Option.some.inj (hb.symm.trans hb')
        refine or_iff_not_imp_left.mpr fun hparent => ?_
        cases ws with
        | nil => exact absurd hws.eq_root hparent
        | cons p ws =>
            -- The parent is the last turn of the page.
            obtain ⟨-, hget, -⟩ := hws.cons_inv
            refine ⟨p, hall p (List.mem_reverse.mpr ?_), h.turnId _ p hget⟩
            obtain ⟨n, hn⟩ : ∃ n, limit.toNat = n + 1 :=
              Nat.exists_eq_succ_of_ne_zero fun h0 => hlimit (UInt32.toNat_inj.mp h0)
            rw [hn]
            exact List.mem_cons_self
      · rintro (h0 | h0 | rfl | hwithin) r hr
        · exact absurd h0 hlast.1
        · exact absurd h0 hlast.2
        · simp at hr
        · have hr := List.mem_of_mem_take (List.mem_reverse.mp hr)
          rcases hwithin b hb with h0 | ⟨p, hp, hid⟩
          · rw [h0] at hws
            obtain rfl := hws.unique Chain.root
            cases hr
          · obtain ⟨older, newer, rfl, holder⟩ := h.chain_of_mem hvs hp
            rw [hid] at holder
            obtain rfl := hws.unique holder
            exact List.mem_append_right _ hr

end

/-! ### Pages with metadata and payloads -/

variable {z : Zstd} {blake3 : Bytes → Hash}

/-- The loop over a page keeps the turns. -/
theorem Stores.withMeta_records {s : Stores} {pack : Bytes} {includePayload : Bool}
    {turns : List TurnRecord} {items : List TurnWithMeta}
    (h : s.withMeta z pack includePayload turns = .ok items) :
    items.map TurnWithMeta.record = turns := by
  refine map_of_mapM (fun r item hitem => ?_) h
  cases hm : s.turnStore.getTurnMeta r.turnId with
  | error e =>
      rw [hm] at hitem
      cases hitem
  | ok m =>
      rw [hm] at hitem
      cases includePayload with
      | false => rw [← Except.ok.inj hitem]
      | true =>
          cases hb : s.blobStore.get z pack r.payloadHash with
          | error e =>
              simp only [hb, bind, Except.bind, if_true] at hitem
              cases hitem
          | ok raw =>
              simp only [hb, bind, Except.bind, if_true, pure, Except.pure] at hitem
              rw [← Except.ok.inj hitem]

/-- The records of a page are a page of the turn store. -/
theorem Stores.getBefore_records {s : Stores} {pack : Bytes} {c before : UInt64}
    {limit : UInt32} {includePayload : Bool} {items : List TurnWithMeta}
    (h : s.getBefore z pack c before limit includePayload = .ok items) :
    s.turnStore.getBefore c before limit = .ok (items.map TurnWithMeta.record) := by
  rw [Stores.getBefore] at h
  cases hturns : s.turnStore.getBefore c before limit with
  | error e =>
      rw [hturns] at h
      cases h
  | ok turns =>
      rw [hturns] at h
      rw [Stores.withMeta_records h]

theorem Stores.getLast_records {s : Stores} {pack : Bytes} {c : UInt64} {limit : UInt32}
    {includePayload : Bool} {items : List TurnWithMeta}
    (h : s.getLast z pack c limit includePayload = .ok items) :
    s.turnStore.getLast c limit = .ok (items.map TurnWithMeta.record) := by
  rw [Stores.getLast] at h
  cases hturns : s.turnStore.getLast c limit with
  | error e =>
      rw [hturns] at h
      cases h
  | ok turns =>
      rw [hturns] at h
      rw [Stores.withMeta_records h]

/-- The stores agree on what is stored of the turns `vs`. -/
def AgreeOn (z : Zstd) (s s' : Stores) (pack pack' : Bytes) (vs : List TurnRecord) : Prop :=
  ∀ r ∈ vs, s'.turnStore.getTurnMeta r.turnId = s.turnStore.getTurnMeta r.turnId ∧
    s'.blobStore.get z pack' r.payloadHash = s.blobStore.get z pack r.payloadHash

/-- Pages of turns that the stores agree on are the same. -/
theorem AgreeOn.withMeta {s s' : Stores} {pack pack' : Bytes} {vs turns : List TurnRecord}
    (h : AgreeOn z s s' pack pack' vs) (hturns : ∀ r ∈ turns, r ∈ vs)
    (includePayload : Bool) :
    s'.withMeta z pack' includePayload turns = s.withMeta z pack includePayload turns := by
  rw [Stores.withMeta, Stores.withMeta]
  induction turns with
  | nil => rfl
  | cons r turns ih =>
      obtain ⟨hmeta, hblob⟩ := h r (hturns r List.mem_cons_self)
      rw [List.mapM_cons, List.mapM_cons, hmeta, hblob,
        ih fun r' hr' => hturns r' (List.mem_cons_of_mem _ hr')]

/-- **What a context shows depends on its own history**, asked for the last turns or for those
before one of its own. -/
theorem AgreeOn.reads {s s' : Stores} {pack pack' : Bytes} {vs : List TurnRecord}
    (h : AgreeOn z s s' pack pack' vs) (hlinked : s.turnStore.Linked)
    (hlinked' : s'.turnStore.Linked) {c : UInt64} {head : ContextHead}
    (hhead : s.turnStore.heads.lookup c = some head)
    (hhead' : s'.turnStore.heads.lookup c = some head)
    (hvs : Chain s.turnStore.forest head.headTurnId vs)
    (hvs' : Chain s'.turnStore.forest head.headTurnId vs) (limit : UInt32)
    (includePayload : Bool) :
    s'.getLast z pack' c limit includePayload = s.getLast z pack c limit includePayload ∧
      ∀ before, (before = 0 ∨ head.headTurnId = 0 ∨ ∃ r ∈ vs, r.turnId = before) →
        s'.getBefore z pack' c before limit includePayload =
          s.getBefore z pack c before limit includePayload := by
  have hlast : s'.getLast z pack' c limit includePayload =
      s.getLast z pack c limit includePayload := by
    simp only [Stores.getLast, hlinked.getLast_of_chain hhead hvs,
      hlinked'.getLast_of_chain hhead' hvs', bind, Except.bind]
    exact h.withMeta (fun r hr => List.mem_of_mem_take (List.mem_reverse.mp hr)) includePayload
  refine ⟨hlast, fun before hbefore => ?_⟩
  by_cases hzero : before = 0 ∨ head.headTurnId = 0
  · have hpage : ∀ {t : TurnStore}, t.heads.lookup c = some head →
        t.getBefore c before limit = t.getLast c limit := by
      intro t ht
      rw [TurnStore.getBefore, TurnStore.getHead, ht]
      exact if_pos hzero
    rw [Stores.getLast, Stores.getLast] at hlast
    rw [Stores.getBefore, Stores.getBefore, hpage hhead, hpage hhead']
    exact hlast
  · obtain ⟨r, hr, rfl⟩ := (or_assoc.mpr hbefore).resolve_left hzero
    obtain ⟨newer, older, rfl⟩ := List.append_of_mem hr
    simp only [Stores.getBefore,
      TurnStore.Linked.getBefore_of_chain hhead hzero (hlinked.stored_of_chain hvs r hr)
        hvs.behind.2,
      TurnStore.Linked.getBefore_of_chain hhead' hzero (hlinked'.stored_of_chain hvs' r hr)
        hvs'.behind.2, bind, Except.bind]
    refine h.withMeta (fun r' hr' => ?_) includePayload
    exact List.mem_append_right _
      (List.mem_cons_of_mem _ (List.mem_of_mem_take (List.mem_reverse.mp hr')))

/-! ### Runs -/

/-- **Reads of a context.** In every state of every run that writes behind no torn record,
`get_last` returns turns of the context's history; `get_before` does exactly if the turn that
comes before the given one is in that history, or the page is the last one or empty; and two
such states that agree on the history give the same answers for it. -/
theorem context_confined_iff {acts : List StoreAct} {m : StoreSystem}
    (h : Run (Guarded (KeepsRecords z blake3) (Steps (StoreSystem.act z blake3)))
      StoreSystem.initial acts m) {s : Stores} (hs : m.proc = some s) {c : UInt64}
    {head : ContextHead} (hhead : s.turnStore.heads.lookup c = some head) :
    ∃ vs, Chain s.turnStore.forest head.headTurnId vs ∧
      (∀ limit includePayload items,
        s.getLast z (m.disk .blobsPack) c limit includePayload = .ok items →
          ∀ t ∈ items, t.record ∈ vs) ∧
      (∀ before limit includePayload items,
        s.getBefore z (m.disk .blobsPack) c before limit includePayload = .ok items →
          ((∀ t ∈ items, t.record ∈ vs) ↔ before = 0 ∨ head.headTurnId = 0 ∨ limit = 0 ∨
            StartsWithin s.turnStore vs before)) ∧
      ∀ acts' m' s',
        Run (Guarded (KeepsRecords z blake3) (Steps (StoreSystem.act z blake3)))
          StoreSystem.initial acts' m' → m'.proc = some s' →
        s'.turnStore.heads.lookup c = some head →
        Chain s'.turnStore.forest head.headTurnId vs →
        AgreeOn z s s' (m.disk .blobsPack) (m'.disk .blobsPack) vs →
        ∀ limit includePayload,
          s'.getLast z (m'.disk .blobsPack) c limit includePayload =
            s.getLast z (m.disk .blobsPack) c limit includePayload ∧
          ∀ before, (before = 0 ∨ head.headTurnId = 0 ∨ ∃ r ∈ vs, r.turnId = before) →
            s'.getBefore z (m'.disk .blobsPack) c before limit includePayload =
              s.getBefore z (m.disk .blobsPack) c before limit includePayload := by
  have hlinked := (sound_of_run h hs).linked
  obtain ⟨vs, hvs⟩ := hlinked.chain_of_head hhead
  refine ⟨vs, hvs, ?_, ?_, ?_⟩
  · intro limit includePayload items hitems t ht
    have hpage := Stores.getLast_records hitems
    rw [hlinked.getLast_of_chain hhead hvs] at hpage
    have hmem := List.mem_map_of_mem (f := TurnWithMeta.record) ht
    rw [← Except.ok.inj hpage] at hmem
    exact List.mem_of_mem_take (List.mem_reverse.mp hmem)
  · intro before limit includePayload items hitems
    rw [← hlinked.getBefore_confined_iff hhead hvs (Stores.getBefore_records hitems),
      List.forall_mem_map]
  · intro acts' m' s' h' hs' hhead' hvs' hagree limit includePayload
    exact hagree.reads hlinked (sound_of_run h' hs').linked hhead hhead' hvs hvs' limit
      includePayload

set_option maxRecDepth 4000 in
/-- `context_confined_iff` for a context of two turns. -/
theorem context_confined_iff_twoTurnActs :
    ∃ m s vs, Run (Guarded (KeepsRecords rawBlockZstd fun _ => emptyHash)
        (Steps (StoreSystem.act rawBlockZstd fun _ => emptyHash))) StoreSystem.initial
        twoTurnActs m ∧ m.proc = some s ∧ Chain s.turnStore.forest 2 vs ∧
      ∀ before items, s.getBefore rawBlockZstd (m.disk .blobsPack) 1 before 64 true = .ok items →
        ((∀ t ∈ items, t.record ∈ vs) ↔ before = 0 ∨ (2 : UInt64) = 0 ∨ (64 : UInt32) = 0 ∨
          StartsWithin s.turnStore vs before) := by
  obtain ⟨m, hrun, hproc, hheads⟩ := exists_run_of_foldlM
    (KeepsRecords rawBlockZstd fun _ => emptyHash)
    (StoreSystem.act rawBlockZstd fun _ => emptyHash) StoreSystem.initial twoTurnActs
    (fun m => m.proc.isSome = true ∧
      ∀ s ∈ m.proc, s.turnStore.heads.lookup 1 = some ⟨1, 2, 1, 2, 0⟩)
    (by decide +kernel)
  obtain ⟨s, hs⟩ := Option.isSome_iff_exists.mp hproc
  obtain ⟨vs, hvs, -, hbefore, -⟩ := context_confined_iff hrun hs (hheads s hs)
  exact ⟨m, s, vs, hrun, hs, hvs, fun before items => hbefore before 64 true items⟩

/-- A second context with a turn of its own. -/
def twoContextActs : List StoreAct :=
  twoTurnActs ++ [.call (.createContext 0) 3 none false, emptyAct 2 4 none]

set_option maxRecDepth 4000 in
/-- **A foreign cursor**: context 2, whose history is turn 3, shows turn 1 of context 1. -/
theorem foreign_cursor_leaks :
    ∃ m s, Run (Guarded (KeepsRecords rawBlockZstd fun _ => emptyHash)
        (Steps (StoreSystem.act rawBlockZstd fun _ => emptyHash))) StoreSystem.initial
        twoContextActs m ∧ m.proc = some s ∧
      (s.turnStore.getLast 2 64).toOption.map (List.map TurnRecord.turnId) = some [3] ∧
      (s.turnStore.getBefore 2 2 64).toOption.map (List.map TurnRecord.turnId) =
        some [1] := by
  obtain ⟨m, hrun, hproc, hlast, hbefore⟩ := exists_run_of_foldlM
    (KeepsRecords rawBlockZstd fun _ => emptyHash)
    (StoreSystem.act rawBlockZstd fun _ => emptyHash) StoreSystem.initial twoContextActs
    (fun m => m.proc.isSome = true ∧
      ((∀ s ∈ m.proc, (s.turnStore.getLast 2 64).toOption.map (List.map TurnRecord.turnId) =
        some [3]) ∧
      ∀ s ∈ m.proc, (s.turnStore.getBefore 2 2 64).toOption.map
        (List.map TurnRecord.turnId) = some [1]))
    (by decide +kernel)
  obtain ⟨s, hs⟩ := Option.isSome_iff_exists.mp hproc
  exact ⟨m, s, hrun, hs, hlast s hs, hbefore s hs⟩

end Cxdb
