import Cxdb.ByteFormat

/-!
# Frames of the Binary Protocol

`protocol/mod.rs` of the server and `protocol.rs` of the Rust client: a frame is a header
of 16 bytes and a payload, and the header names the length of the payload as a `u32`. The
Go client writes and reads the same bytes.

A writer casts the length of its payload to `u32`, so the frame that a reader takes is the
one written only if the payload is shorter than `2 ^ 32` bytes; `Frame.taken` is what a
reader takes in general.

## Main results

* `takeFrame_bytes`: a reader takes `Frame.taken` of the frame in front.
* `takeFrame_append`: bytes that come later do not change the frame that is taken.
-/

open ByteFormat

namespace Cxdb

/-- `MAX_FRAME_SIZE`: 64 MiB, for the server and the Rust client. -/
def maxFrameSize : UInt32 := 64 * 1024 * 1024

structure FrameHeader where
  len : UInt32
  msgType : UInt16
  flags : UInt16
  reqId : UInt64
  deriving DecidableEq, Repr

structure Frame where
  header : FrameHeader
  payload : Bytes
  deriving DecidableEq, Repr

/-- The frame that `write_frame` writes. -/
def Frame.make (msgType flags : UInt16) (reqId : UInt64) (payload : Bytes) : Frame :=
  { header := { len := UInt32.ofNat payload.length, msgType, flags, reqId }, payload }

/-- The 16 bytes of a header. -/
def FrameHeader.bytes (h : FrameHeader) : Bytes :=
  u32Bytes h.len ++ (u16Bytes h.msgType ++ (u16Bytes h.flags ++ u64Bytes h.reqId))

/-- `write_frame`. -/
def Frame.bytes (f : Frame) : Bytes := f.header.bytes ++ f.payload

/-- The header in front, if all of it is there. -/
def takeHeader (bs : Bytes) : Option (FrameHeader × Bytes) := do
  let (len, bs) ← takeU32 bs
  let (msgType, bs) ← takeU16 bs
  let (flags, bs) ← takeU16 bs
  let (reqId, bs) ← takeU64 bs
  return ({ len, msgType, flags, reqId }, bs)

/-- The frame in front, if all of it is there: what `read_frame` returns, the bound on the
length apart. -/
def takeFrame (bs : Bytes) : Option (Frame × Bytes) := do
  let (header, bs) ← takeHeader bs
  let (payload, bs) ← takeBytes header.len.toNat bs
  return ({ header, payload }, bs)

/-- The frame as a reader takes it. -/
def Frame.taken (f : Frame) : Frame :=
  { f with payload := f.payload.take f.header.len.toNat }

/-- A payload that fits into its length field is read whole. -/
theorem Frame.taken_make {msgType flags : UInt16} {reqId : UInt64} {payload : Bytes}
    (h : payload.length < 2 ^ 32) :
    (Frame.make msgType flags reqId payload).taken = Frame.make msgType flags reqId payload := by
  have hlen : (UInt32.ofNat payload.length).toNat = payload.length := by
    rw [UInt32.toNat_ofNat']
    exact Nat.mod_eq_of_lt h
  simp [Frame.taken, Frame.make, hlen]

@[simp] theorem FrameHeader.length_bytes (h : FrameHeader) : h.bytes.length = 16 := by
  simp [FrameHeader.bytes]

@[simp] theorem takeHeader_bytes (h : FrameHeader) (rest : Bytes) :
    takeHeader (h.bytes ++ rest) = some (h, rest) := by
  simp [takeHeader, FrameHeader.bytes]

/-- **The frame in front is taken**, and what its length field leaves of the payload
stays in the stream. -/
theorem takeFrame_bytes {f : Frame} (hlen : f.header.len.toNat ≤ f.payload.length)
    (rest : Bytes) :
    takeFrame (f.bytes ++ rest) =
      some (f.taken, f.payload.drop f.header.len.toNat ++ rest) := by
  rw [takeFrame, Frame.bytes, List.append_assoc, takeHeader_bytes]
  have htake : takeBytes f.header.len.toNat (f.payload ++ rest) =
      some (f.payload.take f.header.len.toNat, f.payload.drop f.header.len.toNat ++ rest) := by
    have hsplit : f.payload ++ rest = f.payload.take f.header.len.toNat ++
        (f.payload.drop f.header.len.toNat ++ rest) := by
      rw [← List.append_assoc, List.take_append_drop]
    rw [hsplit]
    exact takeBytes_append (List.length_take_of_le hlen) _
  simp [htake, Frame.taken]

/-- The length field of a written frame does not exceed its payload. -/
theorem Frame.len_make_le (msgType flags : UInt16) (reqId : UInt64) (payload : Bytes) :
    (Frame.make msgType flags reqId payload).header.len.toNat ≤ payload.length := by
  rw [Frame.make, UInt32.toNat_ofNat']
  exact Nat.mod_le _ _

/-! ### More bytes -/

/-- **A frame in front stays in front**, whatever comes after it. -/
theorem takeFrame_append {bs rest : Bytes} {f : Frame} (h : takeFrame bs = some (f, rest))
    (more : Bytes) : takeFrame (bs ++ more) = some (f, rest ++ more) := by
  simp only [takeFrame, takeHeader, Option.bind_eq_bind, Option.bind_eq_some_iff, Option.pure_def,
    Option.some.injEq, Prod.mk.injEq, Prod.exists] at h ⊢
  obtain ⟨header, body, ⟨len, bs₁, hlen, ty, bs₂, hty, fl, bs₃, hfl, id, bs₄, hid, hheader⟩,
    payload, tail, hpayload, hf⟩ := h
  obtain ⟨rfl, rfl⟩ := hheader
  obtain ⟨rfl, rfl⟩ := hf
  exact ⟨_, _, ⟨len, _, takeU32_mono hlen more, ty, _, takeU16_mono hty more, fl, _,
    takeU16_mono hfl more, id, _, takeU64_mono hid more, rfl, rfl⟩, payload, _,
    takeBytes_mono hpayload more, rfl, rfl⟩

/-- Nothing is taken from an empty stream. -/
@[simp] theorem takeFrame_nil : takeFrame [] = none := rfl

end Cxdb
