import Cxdb.TurnStore

/-!
# The Files of the Turn Store

Each of `turns.log`, `turns.meta` and `heads.tbl` is a record log in the sense of
`RecordLog`: its loader takes back exactly the records that were written, and takes
nothing from the torn start of one more.

What a loader does with a torn record differs from file to file. `load_turns` always
truncates the log. `load_meta` and `load_heads` leave the file alone when fewer than the
eight bytes of the first field are there, and truncate it otherwise
(`kept_turnsMeta`, `kept_headsTbl`).

A type id is written with its length cast to `u32`, so `turns.meta` is a record log only
for type ids shorter than `2 ^ 32` bytes (`TypeIdFits`).

## Main results

* `turnsLogFraming`, `turnsMetaFraming`, `headsTblFraming`: the three formats.
* `kept_turnsLog`, `kept_turnsMeta`, `kept_headsTbl`: what each loader leaves of a torn
  record.
-/

open ByteFormat RecordLog

namespace Cxdb

/-! ### `turns.log` -/

@[simp] theorem length_turnRecordBody (record : TurnRecord) :
    (turnRecordBody record).length = 76 := by
  simp [turnRecordBody]

@[simp] theorem length_encodeTurnRecord (record : TurnRecord) :
    (encodeTurnRecord record).length = 80 := by
  simp [encodeTurnRecord]

/-- A read field advances by its width or ends the file. -/
theorem readU64_cases (bs : Bytes) :
    readU64 bs = .error (.io .unexpectedEof) ∧ bs.length < 8 ∨
      ∃ x rest, readU64 bs = .ok (x, rest) ∧ bs.length = 8 + rest.length := by
  rcases takeU64_cases bs with ⟨h, hlen⟩ | ⟨x, rest, h, hlen⟩
  · exact Or.inl ⟨by simp [readU64, readWith, h], hlen⟩
  · exact Or.inr ⟨x, rest, by simp [readU64, readWith, h], hlen⟩

theorem readU32_cases (bs : Bytes) :
    readU32 bs = .error (.io .unexpectedEof) ∧ bs.length < 4 ∨
      ∃ x rest, readU32 bs = .ok (x, rest) ∧ bs.length = 4 + rest.length := by
  rcases takeU32_cases bs with ⟨h, hlen⟩ | ⟨x, rest, h, hlen⟩
  · exact Or.inl ⟨by simp [readU32, readWith, h], hlen⟩
  · exact Or.inr ⟨x, rest, by simp [readU32, readWith, h], hlen⟩

theorem readHash_cases (bs : Bytes) :
    readHash bs = .error (.io .unexpectedEof) ∧ bs.length < 32 ∨
      ∃ x rest, readHash bs = .ok (x, rest) ∧ bs.length = 32 + rest.length := by
  rcases takeVector_cases 32 bs with ⟨h, hlen⟩ | ⟨x, rest, h, hlen⟩
  · exact Or.inl ⟨by simp [readHash, readWith, h], hlen⟩
  · exact Or.inr ⟨x, rest, by simp [readHash, readWith, h], hlen⟩

/-- Reading undoes writing. -/
theorem readTurnRecord_append (record : TurnRecord) (rest : Bytes) :
    readTurnRecord (encodeTurnRecord record ++ rest) = .ok (record, rest) := by
  simp [readTurnRecord, encodeTurnRecord, turnRecordBody, bind, StateT.bind, Except.bind]

/-- Fewer than 80 bytes are not a turn record. -/
theorem readTurnRecord_short {bs : Bytes} (h : bs.length < 80) :
    readTurnRecord bs = .error (.io .unexpectedEof) := by
  simp only [readTurnRecord, bind, StateT.bind, Except.bind]
  rcases readU64_cases bs with ⟨e, -⟩ | ⟨_, b₁, e, h₁⟩ <;> simp only [e]
  rcases readU64_cases b₁ with ⟨e, -⟩ | ⟨_, b₂, e, h₂⟩ <;> simp only [e]
  rcases readU32_cases b₂ with ⟨e, -⟩ | ⟨_, b₃, e, h₃⟩ <;> simp only [e]
  rcases readU32_cases b₃ with ⟨e, -⟩ | ⟨_, b₄, e, h₄⟩ <;> simp only [e]
  rcases readU64_cases b₄ with ⟨e, -⟩ | ⟨_, b₅, e, h₅⟩ <;> simp only [e]
  rcases readHash_cases b₅ with ⟨e, -⟩ | ⟨_, b₆, e, h₆⟩ <;> simp only [e]
  rcases readU32_cases b₆ with ⟨e, -⟩ | ⟨_, b₇, e, h₇⟩ <;> simp only [e]
  rcases readU64_cases b₇ with ⟨e, -⟩ | ⟨_, b₈, e, h₈⟩ <;> simp only [e]
  rcases readU32_cases b₈ with ⟨e, -⟩ | ⟨_, b₉, e, h₉⟩ <;> simp only [e]
  omega

theorem turnsLogRead_short {bs : Bytes} (h : bs.length < 80) : turnsLogRead bs = .cut := by
  simp [turnsLogRead, readTurnRecord_short h]

theorem turnsLogRead_ne_stop (bs : Bytes) : turnsLogRead bs ≠ .stop := by
  unfold turnsLogRead
  split <;> simp

/-- The format of `turns.log`. -/
def turnsLogFraming : Framing StoreError TurnRecord where
  read := turnsLogRead
  enc := encodeTurnRecord
  Valid _ := True
  enc_ne_nil record h := by simpa using congrArg List.length h
  read_enc record _ rest := by simp [turnsLogRead, readTurnRecord_append]
  torn_nil := Or.inr (turnsLogRead_short (by simp))
  torn_take record _ k hk := Or.inr (turnsLogRead_short (by simp at hk ⊢; omega))

@[simp] theorem turnsLogFraming_enc (record : TurnRecord) :
    turnsLogFraming.enc record = encodeTurnRecord record := rfl

/-- The log never keeps a torn tail. -/
theorem kept_turnsLog (tail : Bytes) : kept turnsLogFraming.read tail = [] := by
  unfold kept
  split
  · next h => exact absurd h (turnsLogRead_ne_stop tail)
  · rfl

/-- Every turn takes 80 bytes of the log. -/
theorem length_turnsLog {file tail : Bytes} {turns : List TurnRecord}
    (h : turnsLogFraming.Layout file turns tail) :
    file.length = 80 * turns.length + tail.length :=
  h.length fun _ => by simp

/-! ### `heads.tbl` -/

@[simp] theorem length_contextHeadBody (head : ContextHead) :
    (contextHeadBody head).length = 32 := by
  simp [contextHeadBody]

@[simp] theorem length_encodeContextHead (head : ContextHead) :
    (encodeContextHead head).length = 36 := by
  simp [encodeContextHead]

theorem headsTblRead_append (head : ContextHead) (rest : Bytes) :
    headsTblRead (encodeContextHead head ++ rest) = .record head rest := by
  simp [headsTblRead, encodeContextHead, contextHeadBody]

theorem headsTblRead_lt_eight {bs : Bytes} (h : bs.length < 8) : headsTblRead bs = .stop := by
  rcases takeU64_cases bs with ⟨e, -⟩ | ⟨_, _, -, hlen⟩
  · simp [headsTblRead, e]
  · omega

theorem headsTblRead_short {bs : Bytes} (h₈ : 8 ≤ bs.length) (h : bs.length < 36) :
    headsTblRead bs = .cut := by
  rcases takeU64_cases bs with ⟨e, hlt⟩ | ⟨_, b₁, e, h₁⟩
  · omega
  simp only [headsTblRead, e]
  rcases takeU64_cases b₁ with ⟨e, -⟩ | ⟨_, b₂, e, h₂⟩ <;> simp only [e]
  rcases takeU32_cases b₂ with ⟨e, -⟩ | ⟨_, b₃, e, h₃⟩ <;> simp only [e]
  rcases takeU32_cases b₃ with ⟨e, -⟩ | ⟨_, b₄, e, h₄⟩ <;> simp only [e]
  rcases takeU64_cases b₄ with ⟨e, -⟩ | ⟨_, b₅, e, h₅⟩ <;> simp only [e]
  rcases takeU32_cases b₅ with ⟨e, -⟩ | ⟨_, b₆, e, h₆⟩ <;> simp only [e]
  omega

/-- The format of `heads.tbl`. -/
def headsTblFraming : Framing StoreError ContextHead where
  read := headsTblRead
  enc := encodeContextHead
  Valid _ := True
  enc_ne_nil head h := by simpa using congrArg List.length h
  read_enc head _ rest := headsTblRead_append head rest
  torn_nil := Or.inl (headsTblRead_lt_eight (by simp))
  torn_take head _ k hk := by
    have hlen : ((encodeContextHead head).take k).length = k := by
      rw [List.length_take]
      omega
    rw [length_encodeContextHead] at hk
    rcases Nat.lt_or_ge k 8 with h | h
    · exact Or.inl (headsTblRead_lt_eight (by omega))
    · exact Or.inr (headsTblRead_short (by omega) (by omega))

@[simp] theorem headsTblFraming_enc (head : ContextHead) :
    headsTblFraming.enc head = encodeContextHead head := rfl

/-- Every head takes 36 bytes of the table. -/
theorem length_headsTbl {file tail : Bytes} {heads : List ContextHead}
    (h : headsTblFraming.Layout file heads tail) :
    file.length = 36 * heads.length + tail.length :=
  h.length fun _ => by simp

/-- `load_heads` keeps a torn head record of fewer than eight bytes and cuts off every
longer one. -/
theorem kept_headsTbl {tail : Bytes} (h : tail.length < 36) :
    kept headsTblFraming.read tail = if tail.length < 8 then tail else [] := by
  split
  · next h₈ => simp [kept, headsTblFraming, headsTblRead_lt_eight h₈]
  · next h₈ => simp [kept, headsTblFraming, headsTblRead_short (not_lt.mp h₈) h]

/-! ### `turns.meta` -/

/-- The length of the type id survives the cast to `u32`. -/
def TypeIdFits (typeId : String) : Prop := (utf8Bytes typeId).length < 2 ^ 32

instance (typeId : String) : Decidable (TypeIdFits typeId) :=
  inferInstanceAs (Decidable (_ < _))

@[simp] theorem length_encodeTurnMeta (m : UInt64 × TurnMeta) :
    (encodeTurnMeta m).length = 28 + (utf8Bytes m.2.declaredTypeId).length := by
  simp [encodeTurnMeta]
  omega

theorem toNat_typeIdLength {typeId : String} (h : TypeIdFits typeId) :
    (UInt32.ofNat (utf8Bytes typeId).length).toNat = (utf8Bytes typeId).length := by
  rw [UInt32.toNat_ofNat']
  exact Nat.mod_eq_of_lt h

theorem turnsMetaRead_append {m : UInt64 × TurnMeta} (h : TypeIdFits m.2.declaredTypeId)
    (rest : Bytes) : turnsMetaRead (encodeTurnMeta m ++ rest) = .record m rest := by
  simp [turnsMetaRead, encodeTurnMeta, toNat_typeIdLength h, takeBytes_append]

theorem turnsMetaRead_lt_eight {bs : Bytes} (h : bs.length < 8) :
    turnsMetaRead bs = .stop := by
  rcases takeU64_cases bs with ⟨e, -⟩ | ⟨_, _, -, hlen⟩
  · simp [turnsMetaRead, e]
  · omega

/-- Cutting a concatenation inside its second part. -/
theorem take_append_of_ge {a b : Bytes} {k : ℕ} (h : a.length ≤ k) :
    (a ++ b).take k = a ++ b.take (k - a.length) := by
  rw [List.take_append, List.take_of_length_le h]

/-- From the eighth byte on, a torn metadata record is cut off: the type id, when it is
all there, is the text that was written. -/
theorem turnsMetaRead_take {m : UInt64 × TurnMeta} (h : TypeIdFits m.2.declaredTypeId)
    {k : ℕ} (h₈ : 8 ≤ k) (hk : k < (encodeTurnMeta m).length) :
    turnsMetaRead ((encodeTurnMeta m).take k) = .cut := by
  rw [length_encodeTurnMeta] at hk
  unfold encodeTurnMeta
  obtain ⟨words, hwords⟩ : ∃ words, words = u32Bytes m.2.declaredTypeVersion ++
    (u32Bytes m.2.encoding ++ (u32Bytes m.2.compression ++ u32Bytes m.2.uncompressedLen)) :=
    ⟨_, rfl⟩
  have h₁₆ : words.length = 16 := by simp [hwords]
  rw [← hwords, take_append_of_ge (by simpa using h₈), length_u64Bytes]
  simp only [turnsMetaRead, takeU64_append]
  rcases Nat.lt_or_ge k 12 with h₁₂ | h₁₂
  · have hlen : ∀ b : Bytes, takeU32 (b.take (k - 8)) = none := fun b =>
      takeU32_short (by rw [List.length_take]; omega)
    simp only [hlen]
  rw [take_append_of_ge (by simp; omega), length_u32Bytes]
  simp only [takeU32_append, toNat_typeIdLength h]
  set n := (utf8Bytes m.2.declaredTypeId).length with hn
  rcases Nat.lt_or_ge (k - 8 - 4) n with hk' | hk'
  · have hlen : ∀ b : Bytes, takeBytes n (b.take (k - 8 - 4)) = none := fun b =>
      takeBytes_short (by rw [List.length_take]; omega)
    simp only [hlen]
  rw [take_append_of_ge hk', takeBytes_append hn.symm]
  simp only [fromUtf8_utf8Bytes]
  -- The cut falls before the end of the four words after the type id.
  obtain ⟨b, hb⟩ : ∃ b, b = words.take (k - 8 - 4 - n) := ⟨_, rfl⟩
  have hshort : b.length < 16 := by
    rw [hb, List.length_take]
    omega
  rw [← hn, ← hb]
  rcases takeU32_cases b with ⟨e, -⟩ | ⟨_, b₁, e, h₁⟩ <;> simp only [e]
  rcases takeU32_cases b₁ with ⟨e, -⟩ | ⟨_, b₂, e, h₂⟩ <;> simp only [e]
  rcases takeU32_cases b₂ with ⟨e, -⟩ | ⟨_, b₃, e, h₃⟩ <;> simp only [e]
  rcases takeU32_cases b₃ with ⟨e, -⟩ | ⟨_, b₄, e, h₄⟩ <;> simp only [e]
  omega

/-- The format of `turns.meta`. -/
def turnsMetaFraming : Framing StoreError (UInt64 × TurnMeta) where
  read := turnsMetaRead
  enc := encodeTurnMeta
  Valid m := TypeIdFits m.2.declaredTypeId
  enc_ne_nil m h := by simpa using congrArg List.length h
  read_enc m h rest := turnsMetaRead_append h rest
  torn_nil := Or.inl (turnsMetaRead_lt_eight (by simp))
  torn_take m h k hk := by
    rcases Nat.lt_or_ge k 8 with h₈ | h₈
    · exact Or.inl (turnsMetaRead_lt_eight (by rw [List.length_take]; omega))
    · exact Or.inr (turnsMetaRead_take h h₈ hk)

@[simp] theorem turnsMetaFraming_enc (m : UInt64 × TurnMeta) :
    turnsMetaFraming.enc m = encodeTurnMeta m := rfl

/-- `load_meta` keeps the torn start of a metadata record when it has fewer than eight
bytes and cuts off every longer one. -/
theorem kept_turnsMeta {m : UInt64 × TurnMeta} (h : TypeIdFits m.2.declaredTypeId)
    {k : ℕ} (hk : k < (encodeTurnMeta m).length) :
    kept turnsMetaFraming.read ((encodeTurnMeta m).take k) =
      if k < 8 then (encodeTurnMeta m).take k else [] := by
  split
  · next h₈ =>
      have : turnsMetaRead ((encodeTurnMeta m).take k) = .stop :=
        turnsMetaRead_lt_eight (by rw [List.length_take]; omega)
      simp [kept, turnsMetaFraming, this]
  · next h₈ => simp [kept, turnsMetaFraming, turnsMetaRead_take h (not_lt.mp h₈) hk]

end Cxdb
