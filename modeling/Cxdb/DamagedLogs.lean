import Cxdb.Decoders
import Cxdb.StoreParts

/-!
# Damaged Logs

What the loaders of `turns.log` and of `roots.idx` make of bytes that they have not written, or
not wholly. The loader of turns cuts the log wherever the next record is not whole. The loader
of roots leaves a file alone that ends within the first eight bytes of a record, and the next
record is then written behind them.

## Main results

* `load_turns_total`: any bytes are loaded, and cut to the longest prefix of whole records.
* `roots_recovered`: the roots that were written are loaded, in every run in which no crash
  leaves one to seven bytes of a record.
* `acknowledged_root_lost`: a root that is attached behind three bytes is lost.
-/

open ByteFormat FaultyDisk RecordLog LastWrite Transition Decoding

namespace Cxdb

/-! ### Turns -/

theorem readWith_eq_ok {α : Type} {take : Bytes → Option (α × Bytes)} {bs : Bytes}
    {r : α × Bytes} (h : readWith take bs = .ok r) : take bs = some r := by
  rw [readWith] at h
  split at h
  · next r' hr =>
    rw [← Except.ok.inj h]
    exact hr
  · cases h

/-- **A turn is read only where one has been written.** -/
theorem readTurnRecord_eq {bs rest : Bytes} {record : TurnRecord}
    (h : readTurnRecord bs = .ok (record, rest)) : bs = encodeTurnRecord record ++ rest := by
  rw [readTurnRecord] at h
  obtain ⟨turnId, b₁, h₁, h⟩ := bind_eq_ok.mp h
  obtain ⟨parentTurnId, b₂, h₂, h⟩ := bind_eq_ok.mp h
  obtain ⟨depth, b₃, h₃, h⟩ := bind_eq_ok.mp h
  obtain ⟨codec, b₄, h₄, h⟩ := bind_eq_ok.mp h
  obtain ⟨typeTag, b₅, h₅, h⟩ := bind_eq_ok.mp h
  obtain ⟨payloadHash, b₆, h₆, h⟩ := bind_eq_ok.mp h
  obtain ⟨flags, b₇, h₇, h⟩ := bind_eq_ok.mp h
  obtain ⟨createdAtUnixMs, b₈, h₈, h⟩ := bind_eq_ok.mp h
  obtain ⟨crc, b₉, h₉, h⟩ := bind_eq_ok.mp h
  dsimp only at h
  split_ifs at h with hcrc
  · cases h
  · obtain ⟨rfl, rfl⟩ := Prod.mk.inj (Except.ok.inj h)
    rw [takeU64_eq (readWith_eq_ok h₁), takeU64_eq (readWith_eq_ok h₂),
      takeU32_eq (readWith_eq_ok h₃), takeU32_eq (readWith_eq_ok h₄),
      takeU64_eq (readWith_eq_ok h₅), takeVector_eq (readWith_eq_ok h₆),
      takeU32_eq (readWith_eq_ok h₇), takeU64_eq (readWith_eq_ok h₈),
      takeU32_eq (readWith_eq_ok h₉), not_not.mp hcrc]
    simp only [encodeTurnRecord, turnRecordBody, List.append_assoc]

theorem turnsLog_sound : turnsLogFraming.Sound := by
  intro bs record rest h
  change turnsLogRead bs = .record record rest at h
  rw [turnsLogRead] at h
  split at h
  · next record' rest' hread =>
    obtain ⟨rfl, rfl⟩ := Read.record.inj h
    exact ⟨readTurnRecord_eq hread, trivial⟩
  all_goals cases h

/-- The ways in which a turn record cannot be read. -/
def TurnError (e : StoreError) : Prop :=
  e = .io .unexpectedEof ∨ e = .corrupt "turn crc mismatch"

theorem readWith_fails {α : Type} (take : Bytes → Option (α × Bytes)) :
    FailsOnly TurnError (readWith take) := by
  intro bs e h
  rw [readWith] at h
  split at h
  · cases h
  · exact .inl (Except.error.inj h).symm

/-- There are not enough bytes, or the checksum is another one. -/
theorem readTurnRecord_fails : FailsOnly TurnError readTurnRecord := by
  rw [readTurnRecord]
  refine (readWith_fails _).bind fun turnId => (readWith_fails _).bind fun parentTurnId =>
    (readWith_fails _).bind fun depth => (readWith_fails _).bind fun codec =>
    (readWith_fails _).bind fun typeTag => (readWith_fails _).bind fun payloadHash =>
    (readWith_fails _).bind fun flags => (readWith_fails _).bind fun createdAtUnixMs =>
    (readWith_fails _).bind fun crc => ?_
  intro bs e h
  dsimp only at h
  split_ifs at h
  · exact .inr (Except.error.inj h).symm
  · cases h

theorem turnsLogRead_ne_fail (bs : Bytes) (e : StoreError) : turnsLogRead bs ≠ .fail e := by
  rw [turnsLogRead]
  split
  · nofun
  · nofun
  · nofun
  · next e' hcorrupt heof he =>
    rcases readTurnRecord_fails bs e' he with rfl | rfl
    · exact absurd rfl heof
    · exact absurd rfl (hcorrupt _)

/-! ### Offsets -/

theorem turnOffsets_concat (turns : List TurnRecord) (r : TurnRecord) :
    turnOffsets (turns ++ [r]) = (turnOffsets turns).insert r.turnId
      (UInt64.ofNat (turns.flatMap encodeTurnRecord).length) := by
  rw [turnOffsets, foldOffsets_append, List.length_flatMap, Nat.zero_add]
  rfl

/-- **Where a turn starts.** Of the turns with one id the last one stays, with its offset. -/
theorem lookup_last {before after : List TurnRecord} {record : TurnRecord}
    (hlast : ∀ r ∈ after, r.turnId ≠ record.turnId) :
    (turnMap (before ++ record :: after)).lookup record.turnId = some record ∧
      (turnOffsets (before ++ record :: after)).lookup record.turnId =
        some (UInt64.ofNat (before.flatMap encodeTurnRecord).length) := by
  refine ⟨lookup_insertAll_of_last rfl hlast, ?_⟩
  induction after using List.reverseRecOn with
  | nil => rw [turnOffsets_concat, Finmap.lookup_insert]
  | append_singleton after r ih =>
      rw [← List.cons_append, ← List.append_assoc, turnOffsets_concat,
        Finmap.lookup_insert_of_ne _ (hlast r (by simp)).symm]
      exact ih fun r' hr' => hlast r' (List.mem_append_left _ hr')

theorem mem_turnOffsets {turns : List TurnRecord} {id : UInt64} :
    id ∈ turnOffsets turns ↔ ∃ r ∈ turns, r.turnId = id := by
  induction turns using List.reverseRecOn with
  | nil => exact ⟨fun h => absurd h Finmap.notMem_empty, fun ⟨r, hr, _⟩ => nomatch hr⟩
  | append_singleton turns r ih =>
      rw [turnOffsets_concat, Finmap.mem_insert, ih]
      simp only [List.mem_append, List.mem_singleton, or_and_right, exists_or, exists_eq_left]
      exact ⟨fun h => h.symm.imp_right Eq.symm, fun h => h.symm.imp_left Eq.symm⟩

/-- **Any bytes are loaded.** The turns are those of the longest prefix of the log that is made
of whole records, the last one for each id, at the offset where its record starts; the log is
cut to this prefix, and loading it again changes nothing. -/
theorem load_turns_total (log : Bytes) :
    ∃ turns tail, Framing.LongestPrefix encodeTurnRecord log turns tail ∧
      (∀ turns' tail', log = turns'.flatMap encodeTurnRecord ++ tail' → turns' <+: turns) ∧
      loadTurns log =
        .ok ((turnMap turns, turnOffsets turns), turns.flatMap encodeTurnRecord) ∧
      (∀ id, (id ∈ turnMap turns ↔ ∃ r ∈ turns, r.turnId = id) ∧
        (id ∈ turnOffsets turns ↔ ∃ r ∈ turns, r.turnId = id)) ∧
      (∀ before record after, turns = before ++ record :: after →
        (∀ r ∈ after, r.turnId ≠ record.turnId) →
          (turnMap turns).lookup record.turnId = some record ∧
            (turnOffsets turns).lookup record.turnId =
              some (UInt64.ofNat (before.flatMap encodeTurnRecord).length)) ∧
      loadTurns (turns.flatMap encodeTurnRecord) =
        .ok ((turnMap turns, turnOffsets turns), turns.flatMap encodeTurnRecord) := by
  obtain ⟨turns, tail, hlayout⟩ := Framing.exists_layout turnsLog_sound turnsLogRead_ne_fail log
  have hlongest := hlayout.longest fun _ => trivial
  refine ⟨turns, tail, hlongest, fun turns' tail' h =>
    hlongest.isPrefixOf (fun _ => trivial) h, ?_, fun id => ⟨mem_insertAll_empty,
      mem_turnOffsets⟩, ?_, ?_⟩
  · rw [loadTurns_of_layout hlayout, kept_turnsLog, List.append_nil]
  · rintro before record after rfl hlast
    exact lookup_last hlast
  · have hcut := hlayout.kept
    rw [kept_turnsLog, List.append_nil] at hcut
    exact (loadTurns_of_layout hcut).trans (by rw [Framing.kept_nil, List.append_nil])

/-! ### Roots -/

theorem rootsIdxRead_append (root : UInt64 × Hash) (rest : Bytes) :
    rootsIdxRead (encodeRoot root ++ rest) = .record root rest := by
  simp [rootsIdxRead, encodeRoot, rootBody]

theorem rootsIdxRead_lt_eight {bs : Bytes} (h : bs.length < 8) : rootsIdxRead bs = .stop := by
  rcases takeU64_cases bs with ⟨e, -⟩ | ⟨_, _, -, hlen⟩
  · rw [rootsIdxRead, e]
  · omega

theorem rootsIdxRead_short {bs : Bytes} (h₈ : 8 ≤ bs.length) (h : bs.length < 44) :
    rootsIdxRead bs = .cut := by
  rcases takeU64_cases bs with ⟨e, hlt⟩ | ⟨_, b₁, e, h₁⟩
  · omega
  simp only [rootsIdxRead, e]
  rcases takeVector_cases 32 b₁ with ⟨e, -⟩ | ⟨_, b₂, e, h₂⟩ <;> simp only [e]
  rcases takeU32_cases b₂ with ⟨e, -⟩ | ⟨_, b₃, e, h₃⟩ <;> simp only [e]
  omega

/-- The format of `roots.idx`. -/
def rootsIdxFraming : Framing StoreError (UInt64 × Hash) where
  read := rootsIdxRead
  enc := encodeRoot
  Valid _ := True
  enc_ne_nil root h := by simpa using congrArg List.length h
  read_enc root _ rest := rootsIdxRead_append root rest
  torn_nil := Or.inl (rootsIdxRead_lt_eight (by simp))
  torn_take root _ k hk := by
    have hlen : ((encodeRoot root).take k).length = k := by
      rw [List.length_take]
      omega
    rw [length_encodeRoot] at hk
    rcases Nat.lt_or_ge k 8 with h | h
    · exact Or.inl (rootsIdxRead_lt_eight (by omega))
    · exact Or.inr (rootsIdxRead_short (by omega) (by omega))

/-- The roots by turn; the last one of a turn stays. -/
def rootMap (roots : List (UInt64 × Hash)) : HashMap UInt64 Hash :=
  insertAll Prod.fst Prod.snd ∅ roots

/-- `FsRootsIndex::load` on a laid-out file. -/
theorem loadRoots_of_layout {file tail : Bytes} {roots : List (UInt64 × Hash)}
    (h : rootsIdxFraming.Layout file roots tail) :
    loadRoots file = .ok (rootMap roots,
      roots.flatMap encodeRoot ++ RecordLog.kept rootsIdxRead tail) := by
  refine (Framing.scan_layout _ _ h).trans ?_
  have hfold : foldOffsets (fun a => (rootsIdxFraming.enc a).length)
      (fun s _ root => s.insert root.1 root.2) 0 ∅ roots = rootMap roots :=
    foldOffsets_eq_foldl _ _ _ _ _
  rw [hfold]
  rfl

/-! ### Crashes while a root is attached -/

/-- A process with a roots index, or none, and its directory. -/
structure RootsHost where
  index : Option FsRootsIndex
  dir : DataDir

/-- What can happen to it. A crash stops an attachment after some bytes. -/
inductive RootsEvent where
  | attach (turnId : UInt64) (fsRootHash : Hash)
  | crash (turnId : UInt64) (fsRootHash : Hash) (bytes : ℕ)
  | reopen
  deriving DecidableEq

namespace RootsHost

/-- An empty directory that no process has opened. -/
def start : RootsHost where
  index := none
  dir := DataDir.empty

/-- One step. Only a process that runs attaches; any process can be replaced by another. -/
def act (m : RootsHost) : RootsEvent → Option RootsHost
  | .attach turnId fsRootHash =>
      m.index.bind fun s =>
        match runCall (attach turnId fsRootHash) s m.dir none with
        | (.ok (), s, d) => some { index := some s, dir := d }
        | _ => none
  | .crash turnId fsRootHash bytes =>
      m.index.map fun s =>
        { index := none
          dir := (runCall (attach turnId fsRootHash) s m.dir (some ⟨.rootsIdx, bytes⟩)).2.2 }
  | .reopen =>
      match FsRootsIndex.openDir m.dir with
      | .ok (s, d) => some { index := some s, dir := d }
      | .error _ => none

/-- No crash leaves one to seven bytes of a record. -/
def Whole : RootsHost → RootsEvent → Prop
  | _, .crash _ _ bytes => bytes = 0 ∨ 8 ≤ bytes
  | _, _ => True

instance (m : RootsHost) : DecidablePred m.Whole := fun
  | .crash _ _ bytes => inferInstanceAs (Decidable (bytes = 0 ∨ 8 ≤ bytes))
  | .attach _ _ | .reopen => inferInstanceAs (Decidable True)

end RootsHost

/-- The records that an event has written as a whole. -/
def RootsEvent.written : RootsEvent → List (UInt64 × Hash)
  | .attach turnId fsRootHash => [(turnId, fsRootHash)]
  | .crash turnId fsRootHash bytes => if 44 ≤ bytes then [(turnId, fsRootHash)] else []
  | .reopen => []

/-- The records that have been written as a whole, acknowledged or not. -/
def rootsWritten (es : List RootsEvent) : List (UInt64 × Hash) := es.flatMap RootsEvent.written

/-! ### Recovery -/

theorem attach_run (turnId : UInt64) (fsRootHash : Hash) (s : FsRootsIndex) (d : DataDir) :
    runCall (attach turnId fsRootHash) s d none =
      (.ok (), ⟨s.roots.insert turnId fsRootHash⟩,
        Function.update d .rootsIdx (d .rootsIdx ++ encodeRoot (turnId, fsRootHash))) := rfl

/-- The file after an attachment that a crash stops. -/
theorem attach_stopped (turnId : UInt64) (fsRootHash : Hash) (s : FsRootsIndex) (d : DataDir)
    (bytes : ℕ) :
    (runCall (attach turnId fsRootHash) s d (some ⟨.rootsIdx, bytes⟩)).2.2 =
      Function.update d .rootsIdx
        (d .rootsIdx ++ (encodeRoot (turnId, fsRootHash)).take bytes) := by
  by_cases h : 44 ≤ bytes
  · simp [runCall, attach, seekEnd, writeAll, modifyMem, bind, EStateM.bind, h,
      List.take_of_length_le]
  · simp [runCall, attach, seekEnd, writeAll, bind, EStateM.bind, h]

/-- The file holds what has been written, and a tail that the loader cuts off; a process that
runs has it in memory, and no tail in its way. -/
structure RootsHost.Holds (es : List RootsEvent) (m : RootsHost) : Prop where
  file : ∃ tail, rootsIdxFraming.Layout (m.dir .rootsIdx) (rootsWritten es) tail ∧
    RecordLog.kept rootsIdxRead tail = [] ∧ (m.index.isSome = true → tail = [])
  memory : ∀ s, m.index = some s → s.roots = rootMap (rootsWritten es)

namespace RootsHost

variable {m m' : RootsHost} {es : List RootsEvent} {e : RootsEvent}

/-- **Opening** loads what has been written, and cuts off what follows. -/
theorem Holds.openDir (h : m.Holds es) :
    FsRootsIndex.openDir m.dir = .ok (⟨rootMap (rootsWritten es)⟩,
      Function.update m.dir .rootsIdx ((rootsWritten es).flatMap encodeRoot)) := by
  obtain ⟨tail, hlayout, hkept, -⟩ := h.file
  rw [FsRootsIndex.openDir, loadRoots_of_layout hlayout, hkept, List.append_nil]
  rfl

theorem Holds.of_layout {roots : List (UInt64 × Hash)} {file tail : Bytes}
    (hroots : rootsWritten es = roots) (hfile : m.dir .rootsIdx = file)
    (hlayout : rootsIdxFraming.Layout file roots tail)
    (hkept : RecordLog.kept rootsIdxRead tail = []) (htail : m.index.isSome = true → tail = [])
    (hmemory : ∀ s, m.index = some s → s.roots = rootMap roots) : m.Holds es := by
  subst hroots hfile
  exact ⟨⟨tail, hlayout, hkept, htail⟩, hmemory⟩

/-- **A step** keeps this, if it leaves no short tail. -/
theorem Holds.step (h : m.Holds es) (hwhole : m.Whole e) (hs : m.act e = some m') :
    m'.Holds (es ++ [e]) := by
  have hwritten : rootsWritten (es ++ [e]) = rootsWritten es ++ e.written := by
    rw [rootsWritten, List.flatMap_append, List.flatMap_singleton]
    rfl
  have hnil : RecordLog.kept rootsIdxRead [] = [] := rfl
  obtain ⟨tail, hlayout, hkept, htail⟩ := h.file
  cases e with
  | attach turnId fsRootHash =>
      obtain ⟨s, hindex, hs⟩ := Option.bind_eq_some_iff.mp hs
      rw [attach_run] at hs
      obtain rfl := Option.some.inj hs
      obtain rfl := htail (by rw [hindex]; rfl)
      refine .of_layout hwritten rfl (hlayout.append trivial) hnil
        (fun _ => rfl) fun s' hs' => ?_
      rw [← Option.some.inj hs', h.memory s hindex]
      exact (insertAll_concat ∅ (rootsWritten es) (turnId, fsRootHash)).symm
  | crash turnId fsRootHash bytes =>
      obtain ⟨s, hindex, rfl⟩ := Option.map_eq_some_iff.mp hs
      obtain rfl := htail (by rw [hindex]; rfl)
      rw [RootsEvent.written] at hwritten
      rw [attach_stopped]
      by_cases hbytes : 44 ≤ bytes
      · rw [if_pos hbytes] at hwritten
        rw [List.take_of_length_le (by rw [length_encodeRoot]; exact hbytes)]
        exact .of_layout hwritten rfl (hlayout.append trivial) hnil
          nofun nofun
      · -- what is left of the record is nothing, or too long to be left alone
        rw [if_neg hbytes, List.append_nil] at hwritten
        have hlt : bytes < (encodeRoot (turnId, fsRootHash)).length := by
          rw [length_encodeRoot]
          omega
        refine .of_layout hwritten rfl
          (hlayout.append_part (a := (turnId, fsRootHash)) trivial hlt fun _ => rfl) ?_ nofun nofun
        rw [List.nil_append]
        have hlen : ((encodeRoot (turnId, fsRootHash)).take bytes).length = bytes :=
          List.length_take_of_le hlt.le
        rw [length_encodeRoot] at hlt
        rcases hwhole with rfl | h₈
        · exact hnil
        · have hcut : rootsIdxRead ((encodeRoot (turnId, fsRootHash)).take bytes) = .cut :=
            rootsIdxRead_short (by omega) (by omega)
          change RecordLog.kept rootsIdxRead ((encodeRoot (turnId, fsRootHash)).take bytes) = []
          rw [RecordLog.kept, hcut]
  | reopen =>
      rw [act, h.openDir] at hs
      obtain rfl := Option.some.inj hs
      rw [RootsEvent.written, List.append_nil] at hwritten
      have hcut := hlayout.kept
      rw [show RecordLog.kept rootsIdxFraming.read tail = [] from hkept, List.append_nil] at hcut
      exact .of_layout hwritten rfl hcut hnil (fun _ => rfl)
        fun s' hs' => by rw [← Option.some.inj hs']

end RootsHost

/-- **Roots are recovered** in every run of attachments, crashes and openings in which no crash
leaves one to seven bytes of a record: the records that were written as a whole are those of
the longest prefix of the file, opening loads them, the last one of each turn, and cuts the
file to them, and a root whose attachment has been acknowledged is found, unless a later one
has been written for its turn. -/
theorem roots_recovered (es : List RootsEvent) (m : RootsHost)
    (h : Run (Guarded RootsHost.Whole (Steps RootsHost.act)) .start es m) :
    (∃ tail, Framing.LongestPrefix encodeRoot (m.dir .rootsIdx) (rootsWritten es) tail) ∧
      FsRootsIndex.openDir m.dir = .ok (⟨rootMap (rootsWritten es)⟩,
        Function.update m.dir .rootsIdx ((rootsWritten es).flatMap encodeRoot)) ∧
      (∀ s, m.index = some s → s.roots = rootMap (rootsWritten es)) ∧
      ∀ before turnId fsRootHash after, es = before ++ .attach turnId fsRootHash :: after →
        (∀ root ∈ rootsWritten after, root.1 ≠ turnId) →
          (⟨rootMap (rootsWritten es)⟩ : FsRootsIndex).get turnId = some fsRootHash := by
  have hholds : m.Holds es := h.invariant (I := fun es m => m.Holds es)
    ⟨⟨[], Framing.layout_nil, rfl, fun _ => rfl⟩, nofun⟩
    fun _ _ _ _ hI hs => hI.step hs.1 hs.2
  refine ⟨?_, hholds.openDir, hholds.memory, ?_⟩
  · obtain ⟨tail, hlayout, -⟩ := hholds.file
    exact ⟨tail, hlayout.longest fun _ => trivial⟩
  · rintro before turnId fsRootHash after rfl hlast
    rw [rootsWritten, List.flatMap_append, List.flatMap_cons]
    exact lookup_insertAll_of_last rfl hlast

/-- A root hash. -/
def someRoot : Hash := List.Vector.replicate 32 0x5a

/-- A crash leaves ten bytes of a record, and the root is attached again. -/
def attachedAgain : List RootsEvent :=
  [.reopen, .attach 1 someRoot, .crash 2 someRoot 10, .reopen, .attach 2 someRoot]

/-- What is recovered of these two roots. -/
theorem roots_recovered_attachedAgain :
    ∃ m, Run (Guarded RootsHost.Whole (Steps RootsHost.act)) .start attachedAgain m ∧
      FsRootsIndex.openDir m.dir = .ok (⟨rootMap (rootsWritten attachedAgain)⟩,
        Function.update m.dir .rootsIdx ((rootsWritten attachedAgain).flatMap encodeRoot)) ∧
      (⟨rootMap (rootsWritten attachedAgain)⟩ : FsRootsIndex).get 2 = some someRoot := by
  obtain ⟨m, hrun, -⟩ := exists_run_of_foldlM RootsHost.Whole RootsHost.act .start
    attachedAgain (fun _ => True) (by decide +kernel)
  obtain ⟨-, hopen, -, hfound⟩ := roots_recovered attachedAgain m hrun
  exact ⟨m, hrun, hopen, hfound [.reopen, .attach 1 someRoot, .crash 2 someRoot 10, .reopen] 2
    someRoot [] rfl nofun⟩

/-- A crash leaves three bytes of a record, and another root is attached behind them. -/
def attachedBehind : List RootsEvent :=
  [.reopen, .crash 1 someRoot 3, .reopen, .attach 2 someRoot]

/-- **An acknowledged root is lost.** Opening leaves the three bytes where they are; the record
behind them is then read from the wrong place, and cut off. -/
theorem acknowledged_root_lost :
    ∃ m, Run (Steps RootsHost.act) .start attachedBehind m ∧
      (m.index.bind fun s => s.get 2) = some someRoot ∧
      ∃ s d, FsRootsIndex.openDir m.dir = .ok (s, d) ∧ s.get 2 = none ∧ d .rootsIdx = [] := by
  obtain ⟨m, hrun, hindex, hs⟩ := exists_run_of_foldlM (fun _ _ => True) RootsHost.act .start
    attachedBehind (fun m => (m.index.bind fun s => s.get 2) = some someRoot ∧
      (FsRootsIndex.openDir m.dir).toOption.map (fun r => (r.1.get 2, r.2 .rootsIdx)) =
        some (none, [])) (by decide +kernel)
  refine ⟨m, hrun.of_guarded, hindex, ?_⟩
  obtain ⟨r, hopen, hr⟩ := Option.map_eq_some_iff.mp hs
  cases hdir : FsRootsIndex.openDir m.dir with
  | error e =>
      rw [hdir] at hopen
      cases hopen
  | ok r' =>
      rw [hdir] at hopen
      obtain rfl := Option.some.inj hopen
      obtain ⟨hget, hfile⟩ := Prod.mk.inj hr
      exact ⟨r'.1, r'.2, rfl, hget, hfile⟩

end Cxdb
