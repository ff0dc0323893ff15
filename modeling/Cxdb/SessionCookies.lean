import Cxdb.LastWrite
import Cxdb.TokenExchange

/-!
# Session Cookies

`session.go`: the sessions of the users who have logged in are rows of a table, and the cookie of
a session is its identifier with a signature behind a dot. A session that has expired is removed
from the table when it is asked for. The table is a map, HMAC is a function, and times are in
nanoseconds.

## Main results

* `verify_eq_iff`: the texts that `verify` accepts are the signed ones.
* `SessionSystem.Tracks.act`: what the table holds, step by step.
* `session_cookies`: both of the cookie and of the sessions behind it, over all runs.
-/

open ByteFormat

namespace Cxdb.Gateway

/-- A session with all its fields, as a row of the table. -/
structure StoredSession where
  id : Bytes
  email : Bytes
  name : Bytes
  picture : Bytes
  createdAt : ℤ
  expiresAt : ℤ
  deriving DecidableEq

/-- `SessionStore`, without its table. -/
structure SessionStore where
  lib : GoLib
  /-- HMAC with SHA-256. -/
  hmac : Bytes → Bytes → Bytes
  secret : Bytes
  cookieName : Bytes
  ttl : ℤ

/-- The table. -/
abbrev SessionTable := HashMap Bytes StoredSession

/-- The bytes that `rand.Read` fills the buffer of `randomID` with. -/
structure RandomBytes where
  bytes : Bytes
  length_eq : bytes.length = 32

/-- `hex.EncodeToString`. -/
def encodeToString (bs : Bytes) : Bytes :=
  bs.flatMap fun b =>
    [ChunkedBody.hexDigit (b.toNat / 16), ChunkedBody.hexDigit (b.toNat % 16)]

/-- `randomID`. -/
def randomID (random : RandomBytes) : Bytes := encodeToString random.bytes

/-- What stands behind the last dot, as `strings.LastIndex` finds it. -/
def afterLastDot (s : Bytes) : Bytes := (s.reverse.takeWhile (· ≠ 46)).reverse

/-- `subtleEqual`. -/
def subtleEqual (a b : Bytes) : Bool :=
  if a.length ≠ b.length then false
  else (a.zip b).foldl (fun diff (x, y) => diff ||| (x ^^^ y)) (0 : UInt8) = 0

/-- `Get`: an expired session is deleted. -/
def SessionTable.get (table : SessionTable) (now : ℤ) (id : Bytes) :
    Option StoredSession × SessionTable :=
  match table.lookup id with
  | none => (none, table)
  | some s => if now > s.expiresAt then (none, table.erase id) else (some s, table)

namespace SessionStore

variable (store : SessionStore)

/-- `sign`. -/
def sign (value : Bytes) : Bytes :=
  value ++ utf8Bytes "." ++ encodeToString (store.hmac store.secret value)

/-- `verify`. -/
def verify (raw : Bytes) : Bytes × Bool :=
  let parts := raw.splitOn 46
  if parts.length < 2 then ([], false)
  else
    let value := [46].intercalate parts.dropLast
    let sig := parts.getLast?.getD []
    let expected := store.sign value
    (value, subtleEqual expected raw && subtleEqual sig (afterLastDot expected))

/-- `Create`: the identifier is the primary key of the table. -/
def create (now : ℤ) (random : RandomBytes) (email name picture : Bytes) (table : SessionTable) :
    Option StoredSession × SessionTable :=
  let id := randomID random
  let s : StoredSession :=
    { id, email, name, picture, createdAt := now, expiresAt := now + store.ttl }
  match table.lookup id with
  | some _ => (none, table)
  | none => (some s, table.insert id s)

/-- The cookie of the request, if there is one. -/
def cookie (r : Request) : Option Bytes :=
  (r.cookies.find? fun c => c.1 = store.cookieName).map Prod.snd

/-- `SessionFromRequest`. -/
def sessionFromRequest (now : ℤ) (r : Request) (table : SessionTable) :
    Option StoredSession × SessionTable :=
  match store.cookie r with
  | none => (none, table)
  | some raw =>
      let (value, ok) := store.verify (store.lib.trimSpace raw)
      if ok = false then (none, table)
      else if value = [] then (none, table)
      else SessionTable.get table now value

/-- `LogoutHandler`, and the session that it deletes. -/
def logout (now : ℤ) (r : Request) (table : SessionTable) : Option StoredSession × SessionTable :=
  match store.sessionFromRequest now r table with
  | (some s, table) => (some s, table.erase s.id)
  | (none, table) => (none, table)

end SessionStore

/-! ### Runs -/

/-- What happens to sessions. -/
inductive SessionEvent where
  | create (random : RandomBytes) (email name picture : Bytes)
  | logout (r : Request)
  | delete (id : Bytes)
  /-- A request of a user, whose session is looked for. -/
  | request (r : Request)
  | tick (duration : ℕ)

/-- What has come of it. -/
inductive SessionNote where
  | created (s : StoredSession)
  | deleted (id : Bytes)

structure SessionSystem where
  now : ℤ
  table : SessionTable
  /-- The sessions that have been created and deleted, in order. -/
  notes : List SessionNote

namespace SessionSystem

variable (store : SessionStore)

/-- At the start there is no session. -/
def start (now : ℤ) : SessionSystem := { now, table := ∅, notes := [] }

/-- **A step.** -/
def act (σ : SessionSystem) : SessionEvent → SessionSystem
  | .create random email name picture =>
      match store.create σ.now random email name picture σ.table with
      | (some s, table) => { σ with table, notes := σ.notes ++ [.created s] }
      | (none, table) => { σ with table }
  | .logout r =>
      match store.logout σ.now r σ.table with
      | (some s, table) => { σ with table, notes := σ.notes ++ [.deleted s.id] }
      | (none, table) => { σ with table }
  | .delete id => { σ with table := σ.table.erase id, notes := σ.notes ++ [.deleted id] }
  | .request r => { σ with table := (store.sessionFromRequest σ.now r σ.table).2 }
  | .tick duration => { σ with now := σ.now + duration }

/-- The state after the events. -/
def run (σ : SessionSystem) (events : List SessionEvent) : SessionSystem :=
  events.foldl (act store) σ

end SessionSystem

/-- The session has been created, and no session with its identifier has been deleted since. -/
def Remains (notes : List SessionNote) (s : StoredSession) : Prop :=
  ∃ before after, notes = before ++ .created s :: after ∧ .deleted s.id ∉ after

/-- **The session is valid**: created, not deleted and not expired. -/
structure SessionSystem.IsValid (σ : SessionSystem) (s : StoredSession) : Prop where
  remains : Remains σ.notes s
  notExpired : σ.now ≤ s.expiresAt

/-! ### Signatures -/

theorem hexDigit_ne_dot {n : ℕ} (h : n < 16) : ChunkedBody.hexDigit n ≠ 46 := by
  revert n
  decide

/-- Hexadecimal digits have no dots among them. -/
theorem dot_notMem_encodeToString (bs : Bytes) : (46 : UInt8) ∉ encodeToString bs := by
  intro h
  obtain ⟨b, -, hb⟩ := List.mem_flatMap.mp h
  have hlt : b.toNat / 16 < 16 := Nat.div_lt_of_lt_mul b.toNat_lt
  simp only [List.mem_cons, List.not_mem_nil, or_false] at hb
  rcases hb with hb | hb
  · exact hexDigit_ne_dot hlt hb.symm
  · exact hexDigit_ne_dot (Nat.mod_lt _ (by decide)) hb.symm

theorem encodeToString_eq_nil {bs : Bytes} : encodeToString bs = [] ↔ bs = [] := by
  cases bs with
  | nil => exact ⟨fun _ => rfl, fun _ => rfl⟩
  | cons b bs => simp [encodeToString]

/-- An identifier of a session is not empty. -/
theorem randomID_ne_nil (random : RandomBytes) : randomID random ≠ [] := by
  intro h
  have hlength := random.length_eq
  rw [encodeToString_eq_nil.mp h] at hlength
  cases hlength

theorem foldl_or_eq_zero {ps : List (UInt8 × UInt8)} {diff : UInt8} :
    ps.foldl (fun diff (x, y) => diff ||| (x ^^^ y)) diff = 0 ↔
      diff = 0 ∧ ∀ p ∈ ps, p.1 = p.2 := by
  induction ps generalizing diff with
  | nil => simp
  | cons p ps ih =>
      rw [List.foldl_cons, ih, UInt8.or_eq_zero_iff, UInt8.xor_eq_zero_iff]
      simp [and_assoc]

/-- `subtleEqual` compares. -/
theorem subtleEqual_iff {a b : Bytes} : subtleEqual a b = true ↔ a = b := by
  rw [subtleEqual]
  split
  next hlength =>
    refine ⟨fun h => (Bool.false_ne_true h).elim, ?_⟩
    rintro rfl
    exact absurd rfl hlength
  next hlength =>
    rw [decide_eq_true_iff, foldl_or_eq_zero]
    refine ⟨fun h => List.ext_getElem (not_not.mp hlength) fun i hi hi' => ?_, ?_⟩
    · have hmem : (a[i], b[i]) ∈ a.zip b := by
        rw [← List.getElem_zip (h := by simpa using ⟨hi, hi'⟩)]
        exact List.getElem_mem _
      exact h.2 _ hmem
    · rintro rfl
      refine ⟨rfl, fun p hp => ?_⟩
      obtain ⟨i, hi, rfl⟩ := List.mem_iff_getElem.mp hp
      rw [List.getElem_zip]

theorem afterLastDot_append {s t : Bytes} (h : (46 : UInt8) ∉ t) :
    afterLastDot (s ++ utf8Bytes "." ++ t) = t := by
  have hne : ∀ b ∈ t.reverse, decide (b ≠ 46) = true := fun b hb => by
    rw [decide_eq_true_iff]
    rintro rfl
    exact h (List.mem_reverse.mp hb)
  have hdot : (utf8Bytes ".").reverse = [46] := by decide
  rw [afterLastDot, List.reverse_append, List.reverse_append, hdot,
    List.takeWhile_append_of_pos hne, List.singleton_append, List.takeWhile_cons_of_neg (by simp),
    List.append_nil, List.reverse_reverse]

/-- A signed text is split into the parts of the text and its signature. -/
theorem splitOn_sign {s t : Bytes} (h : (46 : UInt8) ∉ t) :
    (s ++ utf8Bytes "." ++ t).splitOn 46 = s.splitOn 46 ++ [t] := by
  have hdot : utf8Bytes "." = [46] := by decide
  rw [hdot, List.append_assoc, List.singleton_append, List.splitOn_append_cons_self,
    List.splitOn_eq_singleton h]

namespace SessionStore

variable {store : SessionStore}

/-- **The texts that `verify` accepts are the signed ones.** -/
theorem verify_eq_iff {raw v : Bytes} : store.verify raw = (v, true) ↔ raw = store.sign v := by
  constructor
  · intro h
    rw [verify] at h
    dsimp only at h
    split at h
    · cases h
    · obtain ⟨rfl, hequal⟩ := Prod.mk.inj h
      exact (subtleEqual_iff.mp (Bool.and_eq_true_iff.mp hequal).1).symm
  · rintro rfl
    have hhex := dot_notMem_encodeToString (store.hmac store.secret v)
    have hsplit : (store.sign v).splitOn 46 =
        v.splitOn 46 ++ [encodeToString (store.hmac store.secret v)] := splitOn_sign hhex
    have hparts : v.splitOn 46 ≠ [] := List.splitOn_ne_nil _ _
    have hlength := List.length_pos_iff.mpr hparts
    rw [verify]
    dsimp only
    rw [hsplit, if_neg (by rw [List.length_append, List.length_singleton]; omega),
      List.dropLast_concat, List.getLast?_concat, Option.getD_some, List.intercalate_splitOn,
      sign, afterLastDot_append hhex, subtleEqual_iff.mpr rfl, subtleEqual_iff.mpr rfl]
    rfl

/-! ### Steps -/

/-- The table holds this session for its identifier. -/
theorem lookup_of_get {now : ℤ} {id : Bytes} {table : SessionTable} {s : StoredSession} :
    (table.get now id).1 = some s ↔ table.lookup id = some s ∧ now ≤ s.expiresAt := by
  rw [SessionTable.get]
  cases h : table.lookup id with
  | none => simp
  | some s' =>
      dsimp only
      split_ifs with hexpired
      · simp only [Option.some.injEq, false_iff, not_and, not_le]
        rintro rfl
        exact hexpired
      · simp only [Option.some.injEq, iff_self_and]
        rintro rfl
        exact not_lt.mp hexpired

/-- A session that is asked for goes on being in the table, unless it has expired. -/
theorem get_snd (now : ℤ) (id : Bytes) (table : SessionTable) (id' : Bytes) :
    (table.get now id).2.lookup id' = table.lookup id' ∨
      id' = id ∧ (table.get now id).2.lookup id' = none ∧
        ∃ s, table.lookup id = some s ∧ s.expiresAt < now := by
  rw [SessionTable.get]
  cases h : table.lookup id with
  | none => exact Or.inl rfl
  | some s =>
      dsimp only
      split_ifs with hexpired
      · by_cases hid : id' = id
        · exact Or.inr ⟨hid, by rw [hid, Finmap.lookup_erase], s, rfl, hexpired⟩
        · exact Or.inl (Finmap.lookup_erase_ne hid)
      · exact Or.inl rfl

/-- What a request is looked up by: the value that its cookie has been signed for. -/
theorem sessionFromRequest_cases (now : ℤ) (r : Request) (table : SessionTable) :
    (∃ raw v, store.cookie r = some raw ∧ store.lib.trimSpace raw = store.sign v ∧ v ≠ [] ∧
      store.sessionFromRequest now r table = table.get now v) ∨
    ((∀ raw v, store.cookie r = some raw → store.lib.trimSpace raw = store.sign v → v = []) ∧
      store.sessionFromRequest now r table = (none, table)) := by
  rw [sessionFromRequest]
  cases hcookie : store.cookie r with
  | none => exact Or.inr ⟨fun raw v h => (by cases h), rfl⟩
  | some raw =>
      dsimp only
      cases hverify : store.verify (store.lib.trimSpace raw) with
      | mk v ok =>
          cases ok with
          | false =>
              refine Or.inr ⟨fun raw' v' h hsign => ?_, rfl⟩
              rw [← Option.some.inj h, ← verify_eq_iff, hverify] at hsign
              cases (Prod.mk.inj hsign).2
          | true =>
              have hsign := verify_eq_iff.mp hverify
              by_cases hv : v = []
              · refine Or.inr ⟨fun raw' v' h hsign' => ?_, by simp [hv]⟩
                rw [← Option.some.inj h, ← verify_eq_iff, hverify] at hsign'
                rw [← (Prod.mk.inj hsign').1, hv]
              · exact Or.inl ⟨raw, v, rfl, hsign, hv, by simp [hv]⟩

end SessionStore

/-- What another note makes of it. -/
theorem remains_concat {notes : List SessionNote} {note : SessionNote} {s : StoredSession} :
    Remains (notes ++ [note]) s ↔
      note = .created s ∨ Remains notes s ∧ note ≠ .deleted s.id := by
  constructor
  · rintro ⟨before, after, heq, hafter⟩
    rcases List.eq_nil_or_concat' after with rfl | ⟨after, last, rfl⟩
    · obtain ⟨-, hlast⟩ := List.append_inj' heq rfl
      exact Or.inl (List.cons.inj hlast).1
    · have hsplit : notes ++ [note] = (before ++ .created s :: after) ++ [last] := by
        rw [heq]
        simp
      obtain ⟨rfl, hlast⟩ := List.append_inj' hsplit rfl
      obtain ⟨hnot, hne⟩ := not_or.mp (mt List.mem_append.mpr hafter)
      refine Or.inr ⟨⟨before, after, rfl, hnot⟩, ?_⟩
      rintro rfl
      exact hne (by rw [← (List.cons.inj hlast).1]; exact List.mem_singleton_self _)
  · rintro (rfl | ⟨⟨before, after, rfl, hafter⟩, hne⟩)
    · exact ⟨notes, [], rfl, List.not_mem_nil⟩
    · refine ⟨before, after ++ [note], by simp, fun h => ?_⟩
      rcases List.mem_append.mp h with h | h
      · exact hafter h
      · exact hne (List.mem_singleton.mp h).symm

namespace SessionSystem

variable {store : SessionStore} {σ : SessionSystem}

/-- **The table tracks the sessions**: it holds none that are not left, and all that are valid. -/
structure Tracks (σ : SessionSystem) : Prop where
  holds : ∀ {id s}, σ.table.lookup id = some s → s.id = id ∧ Remains σ.notes s
  finds : ∀ {s}, σ.IsValid s → σ.table.lookup s.id = some s
  named : ∀ {s}, Remains σ.notes s → s.id ≠ []

theorem tracks_start (now : ℤ) : (start now).Tracks where
  holds h := by
    rw [start, Finmap.lookup_empty] at h
    cases h
  finds h := by
    obtain ⟨before, after, heq, -⟩ := h.remains
    simp [start] at heq
  named h := by
    obtain ⟨before, after, heq, -⟩ := h
    simp [start] at heq

/-- Sessions that have expired may be missing. -/
theorem Tracks.drop (h : σ.Tracks) {table : SessionTable}
    (htable : ∀ id, table.lookup id = σ.table.lookup id ∨
      table.lookup id = none ∧ ∃ s, σ.table.lookup id = some s ∧ s.expiresAt < σ.now) :
    Tracks { σ with table } where
  holds {id s} hs := by
    rcases htable id with heq | ⟨heq, -⟩
    · exact h.holds (heq ▸ hs)
    · rw [heq] at hs
      cases hs
  finds {s} hs := by
    have hfound := h.finds ⟨hs.remains, hs.notExpired⟩
    rcases htable s.id with heq | ⟨-, s', hs', hexpired⟩
    · exact heq.trans hfound
    · obtain rfl := Option.some.inj (hfound.symm.trans hs')
      exact absurd hs.notExpired (not_le.mpr hexpired)
  named := h.named

theorem Tracks.request (h : σ.Tracks) (r : Request) :
    Tracks { σ with table := (store.sessionFromRequest σ.now r σ.table).2 } := by
  refine h.drop fun id => ?_
  rcases store.sessionFromRequest_cases σ.now r σ.table with ⟨raw, v, -, -, -, heq⟩ | ⟨-, heq⟩
  · rw [heq]
    rcases SessionStore.get_snd σ.now v σ.table id with hsame | ⟨rfl, hnone, hs⟩
    · exact Or.inl hsame
    · exact Or.inr ⟨hnone, hs⟩
  · rw [heq]
    exact Or.inl rfl

theorem Tracks.delete (h : σ.Tracks) (id : Bytes) :
    Tracks { σ with table := σ.table.erase id, notes := σ.notes ++ [.deleted id] } where
  holds {id' s} hs := by
    have hne : id' ≠ id := by
      rintro rfl
      rw [Finmap.lookup_erase] at hs
      cases hs
    rw [Finmap.lookup_erase_ne hne] at hs
    obtain ⟨rfl, hremains⟩ := h.holds hs
    refine ⟨rfl, remains_concat.mpr (Or.inr ⟨hremains, fun heq => hne ?_⟩)⟩
    exact (SessionNote.deleted.inj heq).symm
  finds {s} hs := by
    obtain ⟨hremains, hne⟩ := (remains_concat.mp hs.remains).resolve_left (by rintro ⟨⟩)
    have hid : s.id ≠ id := fun heq => hne (by rw [heq])
    exact (Finmap.lookup_erase_ne hid).trans (h.finds ⟨hremains, hs.notExpired⟩)
  named hs := h.named ((remains_concat.mp hs).resolve_left (by rintro ⟨⟩)).1

theorem Tracks.create (h : σ.Tracks) {s : StoredSession} (hfree : σ.table.lookup s.id = none)
    (hid : s.id ≠ []) :
    Tracks { σ with table := σ.table.insert s.id s, notes := σ.notes ++ [.created s] } where
  holds {id s'} hs := by
    rw [LastWrite.lookup_insert] at hs
    split_ifs at hs with heq
    · obtain rfl := Option.some.inj hs
      exact ⟨heq.symm, remains_concat.mpr (Or.inl rfl)⟩
    · obtain ⟨hs', hremains⟩ := h.holds hs
      exact ⟨hs', remains_concat.mpr (Or.inr ⟨hremains, by rintro ⟨⟩⟩)⟩
  finds {s'} hs := by
    rw [LastWrite.lookup_insert]
    rcases remains_concat.mp hs.remains with heq | ⟨hremains, -⟩
    · obtain rfl := SessionNote.created.inj heq
      exact if_pos rfl
    · have hfound := h.finds ⟨hremains, hs.notExpired⟩
      rw [if_neg, hfound]
      intro heq
      rw [heq, hfree] at hfound
      cases hfound
  named {s'} hs := by
    rcases remains_concat.mp hs with heq | ⟨hremains, -⟩
    · obtain rfl := SessionNote.created.inj heq
      exact hid
    · exact h.named hremains

/-- A logout removes the session of the request, if it has one. -/
theorem Tracks.logout (h : σ.Tracks) (r : Request) : (σ.act store (.logout r)).Tracks := by
  rw [act, SessionStore.logout]
  have hrequest :
      Tracks { σ with table := (store.sessionFromRequest σ.now r σ.table).2 } := h.request r
  rcases hget : store.sessionFromRequest σ.now r σ.table with ⟨_ | s, table⟩
  · rw [hget] at hrequest
    exact hrequest
  · rw [hget] at hrequest
    exact hrequest.delete s.id

/-- **A step keeps track.** -/
theorem Tracks.act (h : σ.Tracks) (e : SessionEvent) : (σ.act store e).Tracks := by
  cases e with
  | create random email name picture =>
      rw [SessionSystem.act, SessionStore.create]
      cases hlookup : σ.table.lookup (randomID random) with
      | some s => exact h
      | none =>
          exact h.create (s := ⟨randomID random, email, name, picture, σ.now, σ.now + store.ttl⟩)
            hlookup (randomID_ne_nil random)
  | logout r => exact h.logout r
  | delete id => exact h.delete id
  | request r => exact h.request r
  | tick duration =>
      refine ⟨h.holds, fun hs => h.finds ⟨hs.remains, ?_⟩, h.named⟩
      exact (le_add_of_nonneg_right (Int.natCast_nonneg duration)).trans hs.notExpired

/-- **A run keeps track.** -/
theorem Tracks.run (h : σ.Tracks) (events : List SessionEvent) : (σ.run store events).Tracks := by
  induction events generalizing σ with
  | nil => exact h
  | cons e events ih => exact ih (h.act e)

/-- A request has the valid session that its cookie is signed for. -/
theorem Tracks.sessionFromRequest_iff (h : σ.Tracks) (r : Request) (s : StoredSession) :
    (store.sessionFromRequest σ.now r σ.table).1 = some s ↔
      σ.IsValid s ∧
        ∃ raw, store.cookie r = some raw ∧ store.lib.trimSpace raw = store.sign s.id := by
  rcases store.sessionFromRequest_cases σ.now r σ.table with
    ⟨raw, v, hcookie, hsign, -, heq⟩ | ⟨hnone, heq⟩
  · rw [heq, SessionStore.lookup_of_get]
    constructor
    · rintro ⟨hlookup, hexpires⟩
      obtain ⟨rfl, hremains⟩ := h.holds hlookup
      exact ⟨⟨hremains, hexpires⟩, raw, hcookie, hsign⟩
    · rintro ⟨hvalid, raw', hcookie', hsign'⟩
      obtain rfl := Option.some.inj (hcookie.symm.trans hcookie')
      have hv : v = s.id := by
        have hverify := SessionStore.verify_eq_iff.mpr hsign
        rw [SessionStore.verify_eq_iff.mpr hsign'] at hverify
        exact (Prod.mk.inj hverify).1.symm
      exact ⟨hv ▸ h.finds hvalid, hvalid.notExpired⟩
  · rw [heq]
    constructor
    · rintro ⟨⟩
    · rintro ⟨hvalid, raw, hcookie, hsign⟩
      exact absurd (hnone raw s.id hcookie hsign) (h.named hvalid.remains)

end SessionSystem

/-- **Session cookies are sound and complete.** After any events, a request has a session exactly
if its cookie is signed for the identifier of a valid one, and it has that one; and what `verify`
accepts is signed. -/
theorem session_cookies (store : SessionStore) (now : ℤ) (events : List SessionEvent) :
    let σ := (SessionSystem.start now).run store events
    (∀ r s, (store.sessionFromRequest σ.now r σ.table).1 = some s ↔
      σ.IsValid s ∧
        ∃ raw, store.cookie r = some raw ∧ store.lib.trimSpace raw = store.sign s.id) ∧
    ∀ raw v, store.verify raw = (v, true) ↔ raw = store.sign v :=
  ⟨((SessionSystem.tracks_start now).run events).sessionFromRequest_iff,
    fun _ _ => SessionStore.verify_eq_iff⟩

end Cxdb.Gateway
