import Cxdb.IterationOrder
import Cxdb.Snapshots
import Cxdb.StoreCalls
import Cxdb.StoreSplit

/-!
# Uploading Snapshots

`Snapshot.Upload` and `Snapshot::upload`, `UploadAndAttach` and `upload_and_attach`: the tree
objects of a snapshot, the files and the targets of the links are put into the blob store of
the server. The files are read again for this, and what is put is what is read then.

The upload is one client among others. Around each of its calls the file system may have
changed, the server has served requests of others, and the call may be lost or fail. A call
that returns has been served, and returns what the server replied to it.

## Main results

* `StoreCall.mem_index_run`: which blobs a request puts.
* `upload_has`: which blobs the server has after an upload that reports success.
* `upload_complete_iff`: when these are all that the snapshot needs.
-/

open ByteFormat FaultyDisk IterationOrder

namespace Cxdb

/-! ### Blobs that a request puts -/

/-- A request puts a blob: it comes with one that passes the checks, and the files of the blob
store can be written. -/
def StoreCall.Puts (z : Zstd) (blake3 : Bytes → Hash) (c : StoreCall)
    (fault : Option (Fault DataFile)) (hash : Hash) : Prop :=
  (∃ raw, c.blob z blake3 = some (hash, raw)) ∧ putStop fault = none

variable {z : Zstd} {blake3 : Bytes → Hash}

theorem mem_index_putIfAbsent (hash : Hash) (raw : Bytes) (s : BlobStore) (d : DataDir)
    (fault : Option (Fault DataFile)) (k : Hash) :
    k ∈ (runCall (putIfAbsent z hash raw) s d fault).2.1.index ↔
      k ∈ s.index ∨ (k = hash ∧ putStop fault = none) := by
  rw [putIfAbsent_run]
  cases hl : s.index.lookup hash with
  | some entry =>
      have hmem : hash ∈ s.index := Finmap.mem_iff.mpr ⟨entry, hl⟩
      refine ⟨Or.inl, ?_⟩
      rintro (hk | ⟨rfl, -⟩)
      · exact hk
      · exact hmem
  | none =>
      by_cases hstop : putStop fault = none
      · rw [if_pos hstop]
        simp only [Finmap.mem_insert, hstop, and_true]
        exact or_comm
      · rw [if_neg hstop]
        simp only [hstop, and_false, or_false]

/-- **A request puts its blob, and no other.** -/
theorem StoreCall.mem_index_run (c : StoreCall) (now : UInt64) (s : Stores) (d : DataDir)
    (fault : Option (Fault DataFile)) (k : Hash) :
    k ∈ (runCall (c.run z blake3 now) s d fault).2.1.blobStore.index ↔
      k ∈ s.blobStore.index ∨ c.Puts z blake3 fault k := by
  cases c with
  | createContext base | forkContext base =>
      rw [StoreCall.run, runCall_map]
      simp only [Stores.createContext, Stores.forkContext, onTurns, runCall_zoom, StoreCall.Puts,
        StoreCall.blob, reduceCtorEq, exists_false, false_and, or_false]
  | appendTurn r =>
      rw [StoreCall.run, runCall_map, Stores.appendTurn_run, StoreCall.Puts, StoreCall.blob]
      cases hr : r.checked z blake3 with
      | error e => simp [Except.toOption]
      | ok raw =>
          have hput := mem_index_putIfAbsent (z := z) r.contentHash raw s.blobStore d fault k
          cases hrun : runCall (putIfAbsent z r.contentHash raw) s.blobStore d fault with
          | mk x o =>
          rw [hrun] at hput
          have hblob : (∃ raw', some (r.contentHash, raw) = some (k, raw')) ↔
              k = r.contentHash := by
            simp [eq_comm]
          cases x <;>
            simpa only [hrun, Except.toOption, Option.map_some, hblob] using hput
  | putBlob hash data =>
      rw [putBlob_run, StoreCall.Puts, StoreCall.blob]
      by_cases hhash : blake3 data = hash
      · have hput := mem_index_putIfAbsent (z := z) hash data s.blobStore d fault k
        have hblob : (∃ raw', some (hash, data) = some (k, raw')) ↔ k = hash := by
          simp [eq_comm]
        simpa only [if_pos hhash, hblob] using hput
      · simp [hhash]
  | attachFs turnId fsRootHash =>
      rw [StoreCall.run, runCall_map, Stores.attachFs_run, StoreCall.Puts, StoreCall.blob]
      simp only [reduceCtorEq, exists_false, false_and, or_false]
      split
      · rfl
      · split_ifs <;> rfl

/-! ### What happens around an upload -/

/-- A request of another client. -/
structure OtherRequest where
  call : StoreCall
  now : UInt64
  fault : Option (Fault DataFile)

/-- What becomes of a request and its response. -/
inductive Delivery where
  | lost
  | unanswered
  | answered
  deriving DecidableEq

/-- What happens around the calls of an upload, by the number of calls before. -/
structure Surroundings where
  /-- The file system at the time of the call. -/
  fs : ℕ → FileSystem
  /-- The requests of others that the server serves before the call. -/
  others : ℕ → List OtherRequest
  now : ℕ → UInt64
  fault : ℕ → Option (Fault DataFile)
  delivery : ℕ → Delivery

/-- The server, and the number of calls that the upload has made. -/
structure UploadState where
  stores : Stores
  disk : DataDir
  clock : ℕ

/-- A part of an upload. -/
abbrev Uploading (α : Type) := EStateM FstreeError UploadState α

/-- The server has a blob under this hash. -/
def UploadState.Has (s : UploadState) (hash : Hash) : Prop := hash ∈ s.stores.blobStore.index

section Upload

variable (z : Zstd) (blake3 : Bytes → Hash) (env : Surroundings)

/-- Serve requests of others. -/
def serveOthers : List OtherRequest → Stores → DataDir → Stores × DataDir
  | [], s, d => (s, d)
  | q :: qs, s, d =>
      let o := runCall (q.call.run z blake3 q.now) s d q.fault
      serveOthers qs o.2.1 o.2.2

/-- Another call: what happens before it, and how many there were. -/
def tick : Uploading ℕ := fun s =>
  let o := serveOthers z blake3 (env.others s.clock) s.stores s.disk
  .ok s.clock { stores := o.1, disk := o.2, clock := s.clock + 1 }

/-- `readFile` and `std::fs::read`. -/
def readFile (path : Path) : Uploading Bytes := do
  let t ← tick z blake3 env
  match (env.fs t).readFile path with
  | some content => return content
  | none => throw .io

/-- What becomes of the request that is the call `t`. -/
def exchange (t : ℕ) (c : StoreCall) : Uploading StoreReply := fun s =>
  if env.delivery t = .lost then .error .client s
  else
    let o := runCall (c.run z blake3 (env.now t)) s.stores s.disk (env.fault t)
    let s := { s with stores := o.2.1, disk := o.2.2 }
    match o.1 with
    | .error _ => .error .client s
    | .ok reply => if env.delivery t = .answered then .ok reply s else .error .client s

/-- A request to the server. -/
def request (c : StoreCall) : Uploading StoreReply := do
  let t ← tick z blake3 env
  exchange z blake3 env t c

/-- `PutBlobIfAbsent`. The server is told the hash of the bytes that it is given. -/
def putBlobIfAbsent (data : Bytes) : Uploading (Hash × Bool) := do
  match ← request z blake3 env (.putBlob (blake3 data) data) with
  | .blob hash wasNew => return (hash, wasNew)
  | _ => throw .client

/-- `uploadBlob`, which makes nothing of the hash. -/
def uploadBlob (_hash : Hash) (data : Bytes) : Uploading Bool := do
  let (_, wasNew) ← putBlobIfAbsent z blake3 env data
  return wasNew

structure UploadResult where
  rootHash : Hash
  treesUploaded : ℕ
  treesSkipped : ℕ
  filesUploaded : ℕ
  filesSkipped : ℕ
  bytesUploaded : Int64

/-- Count a tree object. -/
def UploadResult.addTree (r : UploadResult) (wasNew : Bool) (data : Bytes) : UploadResult :=
  if wasNew then
    { r with
      treesUploaded := r.treesUploaded + 1
      bytesUploaded := r.bytesUploaded + Int64.ofNat data.length }
  else { r with treesSkipped := r.treesSkipped + 1 }

/-- Count a file or a link. -/
def UploadResult.addFile (r : UploadResult) (wasNew : Bool) (data : Bytes) : UploadResult :=
  if wasNew then
    { r with
      filesUploaded := r.filesUploaded + 1
      bytesUploaded := r.bytesUploaded + Int64.ofNat data.length }
  else { r with filesSkipped := r.filesSkipped + 1 }

variable (w : Walker)

/-- The loop over the tree objects. -/
def uploadTrees : List (Hash × List TreeEntry) → UploadResult → Uploading UploadResult
  | [], r => return r
  | (hash, entries) :: rest, r => do
      let data := w.serializeTree entries
      let wasNew ← uploadBlob z blake3 env hash data
      uploadTrees rest (r.addTree wasNew data)

/-- The loop over the files. -/
def uploadFiles : List (Hash × FileRef) → UploadResult → Uploading UploadResult
  | [], r => return r
  | (hash, ref) :: rest, r => do
      let content ← readFile z blake3 env ref.path
      let wasNew ← uploadBlob z blake3 env hash content
      uploadFiles rest (r.addFile wasNew content)

/-- The loop over the targets of the links. -/
def uploadSymlinks : List (Hash × Bytes) → UploadResult → Uploading UploadResult
  | [], r => return r
  | (hash, target) :: rest, r => do
      let wasNew ← uploadBlob z blake3 env hash target
      uploadSymlinks rest (r.addFile wasNew target)

/-- The orders in which the maps of a snapshot are iterated. -/
structure UploadOrder where
  trees : List Hash
  files : List Hash
  symlinks : List Hash

/-- An order for each of the maps. -/
structure UploadOrder.Lists (order : UploadOrder) (snap : Snapshot) : Prop where
  trees : IterationOrder.Lists snap.trees.keys order.trees
  files : IterationOrder.Lists snap.files.keys order.files
  symlinks : IterationOrder.Lists snap.symlinks.keys order.symlinks

/-- `Snapshot.Upload` and `Snapshot::upload`. -/
def Snapshot.upload (snap : Snapshot) (order : UploadOrder) : Uploading UploadResult := do
  let r ← uploadTrees z blake3 env w (entriesIn snap.trees order.trees)
    { rootHash := snap.rootHash, treesUploaded := 0, treesSkipped := 0, filesUploaded := 0
      filesSkipped := 0, bytesUploaded := 0 }
  let r ← uploadFiles z blake3 env (entriesIn snap.files order.files) r
  uploadSymlinks z blake3 env (entriesIn snap.symlinks order.symlinks) r

/-- `UploadAndAttach` and `upload_and_attach`, once the snapshot has been captured. -/
def Snapshot.uploadAndAttach (snap : Snapshot) (order : UploadOrder) (turnId : UInt64) :
    Uploading UploadResult := do
  let r ← snap.upload z blake3 env w order
  let _ ← request z blake3 env (.attachFs turnId snap.rootHash)
  return r

end Upload

/-! ### What an upload puts -/

variable {env : Surroundings} {w : Walker}

/-- A program of two parts returns when both do. -/
theorem uploading_bind {α β : Type} {x : Uploading α} {f : α → Uploading β} {s s'' : UploadState}
    {b : β} : (x >>= f) s = .ok b s'' ↔ ∃ a s', x s = .ok a s' ∧ f a s' = .ok b s'' := by
  simp only [bind, EStateM.bind]
  cases x s with
  | ok a s' => simp
  | error e s' => simp

/-- Somebody else puts a blob in one of the `n` calls from the call `t` on. -/
def Surroundings.PutsAmid (z : Zstd) (blake3 : Bytes → Hash) (env : Surroundings) (t n : ℕ)
    (k : Hash) : Prop :=
  ∃ i < n, ∃ q ∈ env.others (t + i), q.call.Puts z blake3 q.fault k

theorem serveOthers_has (qs : List OtherRequest) (s : Stores) (d : DataDir) (k : Hash) :
    k ∈ (serveOthers z blake3 qs s d).1.blobStore.index ↔
      k ∈ s.blobStore.index ∨ ∃ q ∈ qs, q.call.Puts z blake3 q.fault k := by
  induction qs generalizing s d with
  | nil => simp [serveOthers]
  | cons q qs ih =>
      rw [serveOthers, ih, StoreCall.mem_index_run, List.exists_mem_cons_iff, or_assoc]

/-- A program that returns has made `n` calls, and put what `own` says of the first one. -/
def AddsBlobs (z : Zstd) (blake3 : Bytes → Hash) (env : Surroundings) {α : Type} (x : Uploading α)
    (n : ℕ) (own : ℕ → Hash → Prop) : Prop :=
  ∀ s a s', x s = .ok a s' → s'.clock = s.clock + n ∧
    ∀ k, s'.Has k ↔ s.Has k ∨ env.PutsAmid z blake3 s.clock n k ∨ own s.clock k

/-- The calls of two parts. -/
theorem putsAmid_add {t n m : ℕ} {k : Hash} :
    env.PutsAmid z blake3 t (n + m) k ↔
      env.PutsAmid z blake3 t n k ∨ env.PutsAmid z blake3 (t + n) m k := by
  constructor
  · rintro ⟨i, hi, h⟩
    by_cases hin : i < n
    · exact Or.inl ⟨i, hin, h⟩
    · refine Or.inr ⟨i - n, by omega, ?_⟩
      rwa [show t + n + (i - n) = t + i by omega]
  · rintro (⟨i, hi, h⟩ | ⟨i, hi, h⟩)
    · exact ⟨i, by omega, h⟩
    · exact ⟨n + i, by omega, by rwa [← Nat.add_assoc]⟩

/-- One part after the other. -/
theorem AddsBlobs.bind {α β : Type} {x : Uploading α} {f : α → Uploading β} {n m : ℕ}
    {own own' : ℕ → Hash → Prop} (hx : AddsBlobs z blake3 env x n own)
    (hf : ∀ a, AddsBlobs z blake3 env (f a) m own') :
    AddsBlobs z blake3 env (x >>= f) (n + m) fun t k => own t k ∨ own' (t + n) k := by
  intro s b s'' h
  obtain ⟨a, s', hxs, hfs⟩ := uploading_bind.mp h
  obtain ⟨hclock, hhas⟩ := hx s a s' hxs
  obtain ⟨hclock', hhas'⟩ := hf a s' b s'' hfs
  refine ⟨by omega, fun k => ?_⟩
  rw [hhas' k, hhas k, hclock, putsAmid_add]
  tauto

theorem tick_adds : AddsBlobs z blake3 env (tick z blake3 env) 1 fun _ _ => False := by
  intro s a s' h
  cases h
  refine ⟨rfl, fun k => ?_⟩
  simp [UploadState.Has, serveOthers_has, Surroundings.PutsAmid]

/-- A request that is answered has been served. -/
theorem exchange_ok {t : ℕ} {c : StoreCall} {s s' : UploadState} {reply : StoreReply}
    (h : exchange z blake3 env t c s = .ok reply s') :
    ∃ o, runCall (c.run z blake3 (env.now t)) s.stores s.disk (env.fault t) = (.ok reply, o) ∧
      s' = { s with stores := o.1, disk := o.2 } := by
  rw [exchange] at h
  by_cases hlost : env.delivery t = .lost
  · rw [if_pos hlost] at h
    cases h
  · rw [if_neg hlost] at h
    rcases hrun : runCall (c.run z blake3 (env.now t)) s.stores s.disk (env.fault t) with ⟨x, o⟩
    rw [hrun] at h
    cases x with
    | error e => cases h
    | ok reply' =>
        dsimp only at h
        split_ifs at h
        cases h
        exact ⟨o, rfl, rfl⟩

/-- What a request that returns has gone through. -/
theorem request_ok {c : StoreCall} {s s'' : UploadState} {reply : StoreReply}
    (h : request z blake3 env c s = .ok reply s'') :
    ∃ s' o, tick z blake3 env s = .ok s.clock s' ∧
      runCall (c.run z blake3 (env.now s.clock)) s'.stores s'.disk (env.fault s.clock) =
        (.ok reply, o) ∧
      s'' = { s' with stores := o.1, disk := o.2 } := by
  rw [request] at h
  obtain ⟨t, s', htick, h⟩ := uploading_bind.mp h
  obtain rfl : s.clock = t := by
    cases htick
    rfl
  obtain ⟨o, hrun, hs⟩ := exchange_ok h
  exact ⟨s', o, htick, hrun, hs⟩

/-- **A request that returns** puts what it puts. -/
theorem request_adds (c : StoreCall) :
    AddsBlobs z blake3 env (request z blake3 env c) 1 fun t k =>
      c.Puts z blake3 (env.fault t) k := by
  intro s reply s'' h
  obtain ⟨s', o, htick, hrun, rfl⟩ := request_ok h
  obtain ⟨hclock, hhas⟩ := tick_adds _ _ _ htick
  refine ⟨hclock, fun k => ?_⟩
  have hput : k ∈ (runCall (c.run z blake3 (env.now s.clock)) s'.stores s'.disk
      (env.fault s.clock)).2.1.blobStore.index ↔ _ :=
    StoreCall.mem_index_run c (env.now s.clock) s'.stores s'.disk (env.fault s.clock) k
  rw [hrun] at hput
  exact hput.trans ((or_congr_left (hhas k)).trans (by tauto))

/-- The server has the bytes that it is told to put, once it has replied. -/
theorem mem_index_putBlob {data : Bytes} {now : UInt64} {s s' : Stores} {d d' : DataDir}
    {fault : Option (Fault DataFile)} {reply : StoreReply}
    (h : runCall (StoreCall.run z blake3 now (.putBlob (blake3 data) data)) s d fault =
      (.ok reply, s', d')) : blake3 data ∈ s'.blobStore.index := by
  have hmem : blake3 data ∈ (runCall (StoreCall.run z blake3 now (.putBlob (blake3 data) data))
      s d fault).2.1.blobStore.index ↔ _ :=
    StoreCall.mem_index_run (.putBlob (blake3 data) data) now s d fault (blake3 data)
  rw [h] at hmem
  rw [putBlob_run, if_pos rfl] at h
  have hok : ∃ entry, (runCall (putIfAbsent z (blake3 data) data) s.blobStore d fault).1 =
      .ok entry := by
    rcases hput : runCall (putIfAbsent z (blake3 data) data) s.blobStore d fault with ⟨x, o⟩
    rw [hput] at h
    cases x with
    | error e => cases h
    | ok entry => exact ⟨entry, rfl⟩
  refine hmem.mpr (((putIfAbsent_isOk z _ data s.blobStore d fault).mp hok).imp_right fun hstop =>
    ⟨⟨data, if_pos rfl⟩, hstop⟩)

/-- **A blob that is put is there**, under the hash of its bytes. -/
theorem uploadBlob_adds (hash : Hash) (data : Bytes) :
    AddsBlobs z blake3 env (uploadBlob z blake3 env hash data) 1 fun _ k => k = blake3 data := by
  intro s a s'' h
  rw [uploadBlob, putBlobIfAbsent] at h
  obtain ⟨p, s₁, h, hreturn⟩ := uploading_bind.mp h
  obtain ⟨reply, s', hrequest, h⟩ := uploading_bind.mp h
  obtain ⟨rfl, rfl⟩ : s' = s₁ ∧ s₁ = s'' := by
    cases hreturn
    cases reply <;> cases h
    exact ⟨rfl, rfl⟩
  obtain ⟨hclock, hhas⟩ := request_adds _ _ _ _ hrequest
  obtain ⟨s₀, o, -, hrun, hs⟩ := request_ok hrequest
  have hdata : s'.Has (blake3 data) := by
    rw [hs]
    exact mem_index_putBlob hrun
  refine ⟨hclock, fun k => ⟨fun hk => ?_, ?_⟩⟩
  · refine ((hhas k).mp hk).imp_right (Or.imp_right ?_)
    rintro ⟨⟨raw, hraw⟩, -⟩
    rw [StoreCall.blob, if_pos rfl] at hraw
    exact (Prod.mk.inj (Option.some.inj hraw)).1.symm
  · rintro (hk | hk | rfl)
    · exact (hhas k).mpr (Or.inl hk)
    · exact (hhas k).mpr (Or.inr (Or.inl hk))
    · exact hdata

theorem AddsBlobs.return {α : Type} (a : α) :
    AddsBlobs z blake3 env (pure a : Uploading α) 0 fun _ _ => False := by
  intro s b s' h
  cases h
  exact ⟨rfl, fun k => by simp [Surroundings.PutsAmid]⟩

theorem AddsBlobs.congr {α : Type} {x : Uploading α} {n m : ℕ} {own own' : ℕ → Hash → Prop}
    (h : AddsBlobs z blake3 env x n own) (hnm : n = m) (hown : ∀ t k, own t k ↔ own' t k) :
    AddsBlobs z blake3 env x m own' := by
  obtain rfl : own = own' := funext fun t => funext fun k => propext (hown t k)
  exact hnm ▸ h

theorem uploadTrees_adds (l : List (Hash × List TreeEntry)) (r : UploadResult) :
    AddsBlobs z blake3 env (uploadTrees z blake3 env w l r) l.length
      fun _ k => ∃ e ∈ l, k = blake3 (w.serializeTree e.2) := by
  induction l generalizing r with
  | nil => exact (AddsBlobs.return r).congr rfl (by simp)
  | cons e l ih =>
      refine ((uploadBlob_adds e.1 _).bind fun wasNew => ih _).congr (Nat.add_comm _ _)
        fun t k => ?_
      rw [List.exists_mem_cons_iff]

theorem uploadSymlinks_adds (l : List (Hash × Bytes)) (r : UploadResult) :
    AddsBlobs z blake3 env (uploadSymlinks z blake3 env l r) l.length
      fun _ k => ∃ e ∈ l, k = blake3 e.2 := by
  induction l generalizing r with
  | nil => exact (AddsBlobs.return r).congr rfl (by simp)
  | cons e l ih =>
      refine ((uploadBlob_adds e.1 _).bind fun wasNew => ih _).congr (Nat.add_comm _ _)
        fun t k => ?_
      rw [List.exists_mem_cons_iff]

/-- The hash of what is read of the files, the first of them in the call `t`. -/
def Surroundings.Rereads (blake3 : Bytes → Hash) (env : Surroundings)
    (files : List (Hash × FileRef)) (t : ℕ) (k : Hash) : Prop :=
  ∃ i e content, files[i]? = some e ∧ (env.fs (t + 2 * i)).readFile e.2.path = some content ∧
    k = blake3 content

theorem rereads_cons {e : Hash × FileRef} {l : List (Hash × FileRef)} {t : ℕ} {k : Hash} :
    env.Rereads blake3 (e :: l) t k ↔
      (∃ content, (env.fs t).readFile e.2.path = some content ∧ k = blake3 content) ∨
        env.Rereads blake3 l (t + 2) k := by
  constructor
  · rintro ⟨_ | i, e', content, he, hread, hk⟩
    · obtain rfl := Option.some.inj he
      exact Or.inl ⟨content, hread, hk⟩
    · exact Or.inr ⟨i, e', content, he, by rwa [show t + 2 + 2 * i = t + 2 * (i + 1) by omega], hk⟩
  · rintro (⟨content, hread, hk⟩ | ⟨i, e', content, he, hread, hk⟩)
    · exact ⟨0, e, content, rfl, hread, hk⟩
    · exact ⟨i + 1, e', content, he, by rwa [show t + 2 * (i + 1) = t + 2 + 2 * i by omega], hk⟩

/-- A file that is read again shows what is in it then. -/
theorem readFile_ok {path : Path} {s s'' : UploadState} {content : Bytes}
    (h : readFile z blake3 env path s = .ok content s'') :
    (env.fs s.clock).readFile path = some content ∧ tick z blake3 env s = .ok s.clock s'' := by
  rw [readFile] at h
  obtain ⟨t, s', htick, h⟩ := uploading_bind.mp h
  obtain rfl : s.clock = t := by
    cases htick
    rfl
  cases hread : (env.fs s.clock).readFile path with
  | none =>
      rw [hread] at h
      cases h
  | some content' =>
      rw [hread] at h
      cases h
      exact ⟨rfl, htick⟩

/-- **What is put of the files** is what is read of them, whatever was captured. -/
theorem uploadFiles_adds (l : List (Hash × FileRef)) (r : UploadResult) :
    AddsBlobs z blake3 env (uploadFiles z blake3 env l r) (2 * l.length)
      fun t k => env.Rereads blake3 l t k := by
  induction l generalizing r with
  | nil => exact (AddsBlobs.return r).congr rfl fun t k => by simp [Surroundings.Rereads]
  | cons e l ih =>
      intro s a s'' h
      rw [uploadFiles] at h
      obtain ⟨content, s', hreading, h⟩ := uploading_bind.mp h
      obtain ⟨hread, htick⟩ := readFile_ok hreading
      obtain ⟨hclock, hhas⟩ := tick_adds _ _ _ htick
      obtain ⟨hclock', hhas'⟩ :=
        ((uploadBlob_adds e.1 content).bind fun wasNew => ih _) s' a s'' h
      refine ⟨by rw [List.length_cons]; omega, fun k => ?_⟩
      have hamid : env.PutsAmid z blake3 s.clock (2 * (e :: l).length) k ↔
          env.PutsAmid z blake3 s.clock 1 k ∨
            env.PutsAmid z blake3 (s.clock + 1) (1 + 2 * l.length) k := by
        rw [← putsAmid_add, show 1 + (1 + 2 * l.length) = 2 * (e :: l).length by
          rw [List.length_cons]; omega]
      have hcons : env.Rereads blake3 (e :: l) s.clock k ↔
          k = blake3 content ∨ env.Rereads blake3 l (s.clock + 1 + 1) k := by
        rw [rereads_cons, hread]
        simp
      rw [hhas' k, hhas k, hclock, hamid]
      dsimp only
      rw [hcons]
      tauto

/-! ### What an upload has to put -/

/-- The hashes that are reached from the root through the tree objects. -/
inductive Snapshot.Reaches (snap : Snapshot) : Hash → Prop
  | root : snap.Reaches snap.rootHash
  | entry {tree : Hash} {entries : List TreeEntry} {e : TreeEntry} :
      snap.Reaches tree → snap.trees.lookup tree = some entries → e ∈ entries →
      snap.Reaches e.hash

/-- The server has all that the root leads to. -/
def Snapshot.Complete (snap : Snapshot) (s : UploadState) : Prop :=
  ∀ k, snap.Reaches k → s.Has k

/-- How many calls an upload makes. -/
def Snapshot.calls (snap : Snapshot) : ℕ :=
  snap.trees.keys.card + 2 * snap.files.keys.card + snap.symlinks.keys.card

/-- Of each file that the snapshot needs, under the hash that was captured: the server had it, or
somebody puts it in one of the `n` calls, or it is a tree object or the target of a link, or it
is what the upload reads of some file. -/
def Snapshot.Supplied (z : Zstd) (blake3 : Bytes → Hash) (env : Surroundings) (snap : Snapshot)
    (order : UploadOrder) (n : ℕ) (s : UploadState) : Prop :=
  ∀ k, snap.Reaches k → k ∈ snap.files →
    s.Has k ∨ env.PutsAmid z blake3 s.clock n k ∨ k ∈ snap.trees ∨ k ∈ snap.symlinks ∨
      env.Rereads blake3 (entriesIn snap.files order.files) (s.clock + snap.trees.keys.card) k

theorem length_entriesIn {α : Type} {m : HashMap Hash α} {ks : List Hash}
    (h : Lists m.keys ks) : (entriesIn m ks).length = m.keys.card := by
  have hkeys : ks.toFinset = m.keys := Finset.ext fun k => by simp [h.mem_iff k]
  rw [← List.length_map, keys_entriesIn h, ← hkeys, List.toFinset_card_of_nodup h.nodup]

/-- **What the server has after an upload** that reports success. -/
theorem Snapshot.upload_adds {snap : Snapshot} (hsnap : snap.Closed blake3 w)
    {order : UploadOrder} (horder : order.Lists snap) :
    AddsBlobs z blake3 env (snap.upload z blake3 env w order) snap.calls fun t k =>
      k ∈ snap.trees ∨ k ∈ snap.symlinks ∨
        env.Rereads blake3 (entriesIn snap.files order.files) (t + snap.trees.keys.card) k := by
  refine ((uploadTrees_adds _ _).bind fun r => (uploadFiles_adds _ r).bind fun r =>
    uploadSymlinks_adds _ r).congr ?_ fun t k => ?_
  · rw [length_entriesIn horder.trees, length_entriesIn horder.files,
      length_entriesIn horder.symlinks, Snapshot.calls, Nat.add_assoc]
  · have htrees : (∃ e ∈ entriesIn snap.trees order.trees, k = blake3 (w.serializeTree e.2)) ↔
        k ∈ snap.trees := by
      constructor
      · rintro ⟨e, he, rfl⟩
        have hl := (mem_entriesIn horder.trees).mp he
        rw [hsnap.trees hl]
        exact Finmap.mem_of_lookup_eq_some hl
      · intro hk
        obtain ⟨es, hes⟩ := Finmap.mem_iff.mp hk
        exact ⟨(k, es), (mem_entriesIn horder.trees).mpr hes, (hsnap.trees hes).symm⟩
    have hsymlinks : (∃ e ∈ entriesIn snap.symlinks order.symlinks, k = blake3 e.2) ↔
        k ∈ snap.symlinks := by
      constructor
      · rintro ⟨e, he, rfl⟩
        have hl := (mem_entriesIn horder.symlinks).mp he
        rw [hsnap.symlinks hl]
        exact Finmap.mem_of_lookup_eq_some hl
      · intro hk
        obtain ⟨target, htarget⟩ := Finmap.mem_iff.mp hk
        exact ⟨(k, target), (mem_entriesIn horder.symlinks).mpr htarget,
          (hsnap.symlinks htarget).symm⟩
    rw [htrees, hsymlinks, length_entriesIn horder.trees]
    tauto

/-- What is reached is a tree object, a file or the target of a link. -/
theorem Snapshot.Closed.of_reaches {snap : Snapshot} (hsnap : snap.Closed blake3 w) {k : Hash}
    (h : snap.Reaches k) : k ∈ snap.trees ∨ k ∈ snap.files ∨ k ∈ snap.symlinks := by
  cases h with
  | root => exact Or.inl hsnap.root
  | entry _ hl he => exact hsnap.entries hl _ he

/-- **An upload that has put the trees and the links is complete** where the files are
supplied. -/
theorem Snapshot.complete_iff {snap : Snapshot} (hsnap : snap.Closed blake3 w)
    {order : UploadOrder} {n : ℕ} {s s' : UploadState}
    (h : ∀ k, s'.Has k ↔ s.Has k ∨ env.PutsAmid z blake3 s.clock n k ∨ k ∈ snap.trees ∨
      k ∈ snap.symlinks ∨
      env.Rereads blake3 (entriesIn snap.files order.files) (s.clock + snap.trees.keys.card) k) :
    snap.Complete s' ↔ snap.Supplied z blake3 env order n s := by
  constructor
  · exact fun hcomplete k hk _ => (h k).mp (hcomplete k hk)
  · intro hsupplied k hk
    rcases hsnap.of_reaches hk with htree | hfile | hlink
    · exact (h k).mpr (Or.inr (Or.inr (Or.inl htree)))
    · exact (h k).mpr (hsupplied k hk hfile)
    · exact (h k).mpr (Or.inr (Or.inr (Or.inr (Or.inl hlink))))

/-- **When an upload that reports success is complete.** The server has all that the root of a
captured snapshot leads to, if and only if the files it needs are supplied under the hashes that
were captured. -/
theorem upload_complete_iff (z : Zstd) (blake3 : Bytes → Hash) (env : Surroundings) (w : Walker)
    (o : SnapshotOptions) (fs : FileSystem) (fuel : ℕ) (snap : Snapshot)
    (hsnap : capture blake3 w o fs fuel = some (.ok snap)) (order : UploadOrder)
    (horder : order.Lists snap) (s s' : UploadState) (r : UploadResult) :
    (snap.upload z blake3 env w order s = .ok r s' →
      (snap.Complete s' ↔ snap.Supplied z blake3 env order snap.calls s)) ∧
    ∀ turnId, snap.uploadAndAttach z blake3 env w order turnId s = .ok r s' →
      (snap.Complete s' ↔ snap.Supplied z blake3 env order (snap.calls + 1) s) := by
  have hclosed := capture_closed hsnap
  have hupload : AddsBlobs z blake3 env (snap.upload z blake3 env w order) snap.calls _ :=
    Snapshot.upload_adds hclosed horder
  refine ⟨fun h => Snapshot.complete_iff hclosed (hupload s r s' h).2, fun turnId h => ?_⟩
  have hattach : AddsBlobs z blake3 env (snap.uploadAndAttach z blake3 env w order turnId)
      (snap.calls + 1) _ :=
    (hupload.bind fun r => ((request_adds _).bind fun _ => AddsBlobs.return r)).congr rfl
      fun t k => Iff.rfl
  refine Snapshot.complete_iff hclosed fun k => ((hattach s r s' h).2 k).trans ?_
  simp only [StoreCall.Puts, StoreCall.blob, reduceCtorEq, exists_false, false_and, or_false]

/-! ### A file that is rewritten -/

/-- A directory with one file, `a`. -/
def oneFile (content : Bytes) : FileSystem where
  canonical p := some p
  readDir p := if p = [] then some [⟨[97], false⟩] else none
  stat p :=
    if p = [] then some ⟨.directory, 0o40755, 0⟩
    else if p = [[97]] then some ⟨.regular, 0o100644, UInt64.ofNat content.length⟩ else none
  lstat p :=
    if p = [] then some ⟨.directory, 0o40755, 0⟩
    else if p = [[97]] then some ⟨.regular, 0o100644, UInt64.ofNat content.length⟩ else none
  readLink _ := none
  readFile p := if p = [[97]] then some content else none
  stat_follows := by
    intro p info h
    split_ifs at h <;> cases h <;> simp

/-- Nothing happens around the calls, and the file has this content. -/
def undisturbed (content : Bytes) : Surroundings where
  fs _ := oneFile content
  others _ := []
  now _ := 5
  fault _ := none
  delivery _ := .answered

/-- A server without blobs. -/
def noBlobs : UploadState where
  stores :=
    { blobStore := ⟨∅⟩
      turnStore := { turns := ∅, turnIndex := ∅, turnMeta := ∅, heads := ∅, nextTurnId := 1
                     nextContextId := 1 }
      fsRoots := ⟨∅⟩ }
  disk _ := []
  clock := 0

/-- The tree object of the directory with the file. -/
def oneFileTree : List TreeEntry :=
  [{ name := [97], kind := .file, mode := 0o644, size := 1, hash := headDigest [1] }]

/-- The snapshot of the directory while the file has the content `1`. -/
def oneFileSnapshot : Snapshot where
  rootHash := headDigest [0x91]
  trees := (∅ : HashMap Hash (List TreeEntry)).insert (headDigest [0x91]) oneFileTree
  files := (∅ : HashMap Hash FileRef).insert (headDigest [1]) ⟨[[97]], 1, headDigest [1]⟩
  symlinks := ∅
  fileCount := 1
  dirCount := 1
  symlinkCount := 0
  totalBytes := 1

theorem capture_oneFile :
    capture headDigest Go.walker .default (oneFile [1]) 1 = some (.ok oneFileSnapshot) := by
  rfl

/-- The orders of maps with one entry or none. -/
def oneFileOrder : UploadOrder where
  trees := [headDigest [0x91]]
  files := [headDigest [1]]
  symlinks := []

/-- The state in which an upload returns, as a test sees it. -/
theorem exists_ok_of_test {α : Type} {x : Uploading α} {s : UploadState} (p : UploadState → Bool)
    (h : (match x s with | .ok _ s' => p s' | .error _ _ => false) = true) :
    ∃ a s', x s = .ok a s' ∧ p s' = true := by
  cases hx : x s with
  | ok a s' =>
      rw [hx] at h
      exact ⟨a, s', rfl, h⟩
  | error e s' =>
      rw [hx] at h
      cases h

/-- The upload of a file that has not changed since is complete. -/
theorem upload_complete_iff_oneFile :
    ∃ r s', oneFileSnapshot.upload rawBlockZstd headDigest (undisturbed [1]) Go.walker oneFileOrder
        noBlobs = .ok r s' ∧ oneFileSnapshot.Complete s' := by
  obtain ⟨r, s', hupload, -⟩ := exists_ok_of_test (fun _ => true)
    (x := oneFileSnapshot.upload rawBlockZstd headDigest (undisturbed [1]) Go.walker oneFileOrder)
    (s := noBlobs) (by decide +kernel)
  refine ⟨r, s', hupload, ?_⟩
  refine ((upload_complete_iff rawBlockZstd headDigest (undisturbed [1]) Go.walker .default
    (oneFile [1]) 1 oneFileSnapshot capture_oneFile oneFileOrder
    ⟨by decide, by decide, by decide⟩ noBlobs s' r).1 hupload).mpr ?_
  intro k _ hk
  obtain rfl : k = headDigest [1] :=
    (Finmap.mem_insert.mp hk).resolve_right Finmap.notMem_empty
  exact Or.inr (Or.inr (Or.inr (Or.inr ⟨0, _, [1], rfl, rfl, rfl⟩)))

/-- **A file that is rewritten after the capture is missing**, and the upload reports success. -/
theorem rewritten_file_is_missing :
    ∃ r s', capture headDigest Go.walker .default (oneFile [1]) 1 = some (.ok oneFileSnapshot) ∧
      oneFileOrder.Lists oneFileSnapshot ∧
      oneFileSnapshot.upload rawBlockZstd headDigest (undisturbed [2]) Go.walker oneFileOrder
        noBlobs = .ok r s' ∧
      oneFileSnapshot.Reaches (headDigest [1]) ∧ ¬s'.Has (headDigest [1]) := by
  obtain ⟨r, s', hupload, hmissing⟩ := exists_ok_of_test
    (fun s' => decide (headDigest [1] ∉ s'.stores.blobStore.index))
    (x := oneFileSnapshot.upload rawBlockZstd headDigest (undisturbed [2]) Go.walker oneFileOrder)
    (s := noBlobs) (by decide +kernel)
  have hmissing' : headDigest [1] ∉ s'.stores.blobStore.index := of_decide_eq_true hmissing
  refine ⟨r, s', capture_oneFile, ⟨by decide, by decide, by decide⟩, hupload, ?_, hmissing'⟩
  have hentry : oneFileSnapshot.trees.lookup (headDigest [0x91]) = some oneFileTree := rfl
  exact .entry .root hentry List.mem_cons_self

end Cxdb
