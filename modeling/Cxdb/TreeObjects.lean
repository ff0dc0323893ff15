import Cxdb.Snapshots

/-!
# The Bytes of Tree Objects

A tree object can be told from its bytes, as long as the lengths of its names and the number of
its entries fit into 32 bits.

## Main results

* `serializeTree_injective`: the bytes determine the entries.
-/

open ByteFormat

namespace Cxdb

theorem length_beBytes (n x : ℕ) : (beBytes n x).length = n := by
  rw [beBytes, List.length_reverse, length_leBytes]

/-- The number that the first `n` bytes denote. -/
def ofBeBytes (n : ℕ) (bs : Bytes) : ℕ := ofLeBytes (bs.take n).reverse

theorem ofBeBytes_beBytes {n x : ℕ} (h : x < 256 ^ n) (rest : Bytes) :
    ofBeBytes n (beBytes n x ++ rest) = x := by
  rw [ofBeBytes, List.take_left' (length_beBytes n x), beBytes, List.reverse_reverse,
    ofLeBytes_leBytes, Nat.mod_eq_of_lt h]

theorem beBytes_injective {n x y : ℕ} (hx : x < 256 ^ n) (hy : y < 256 ^ n)
    (h : beBytes n x = beBytes n y) : x = y := by
  have hxs := ofBeBytes_beBytes hx []
  rw [h, ofBeBytes_beBytes hy] at hxs
  exact hxs.symm

/-- The length that the head of a string tells. -/
def strLen : Bytes → ℕ
  | [] => 0
  | b :: bs =>
      if b = 0xd9 then ofBeBytes 1 bs
      else if b = 0xda then ofBeBytes 2 bs
      else if b = 0xdb then ofBeBytes 4 bs
      else b.toNat - 0xa0

theorem strLen_msgpackStrLen {n : ℕ} (h : n < 2 ^ 32) (rest : Bytes) :
    strLen (msgpackStrLen n ++ rest) = n := by
  rw [msgpackStrLen]
  split_ifs with h5 h8 h16
  · have hb : (UInt8.ofNat (0xa0 + n)).toNat = 0xa0 + n := by
      rw [UInt8.toNat_ofNat']
      omega
    have hne : ∀ b : UInt8, 0xc0 ≤ b.toNat → UInt8.ofNat (0xa0 + n) ≠ b := by
      rintro _ hle rfl
      omega
    rw [List.singleton_append, strLen, if_neg (hne _ (by decide)), if_neg (hne _ (by decide)),
      if_neg (hne _ (by decide)), hb]
    omega
  · exact ofBeBytes_beBytes (by omega) rest
  · exact ofBeBytes_beBytes (by omega) rest
  · exact ofBeBytes_beBytes (by omega) rest

/-- The length that the head of an array tells. -/
def arrayLen : Bytes → ℕ
  | [] => 0
  | b :: bs =>
      if b = 0xdc then ofBeBytes 2 bs
      else if b = 0xdd then ofBeBytes 4 bs
      else b.toNat - 0x90

theorem arrayLen_msgpackArrayLen {n : ℕ} (h : n < 2 ^ 32) (rest : Bytes) :
    arrayLen (msgpackArrayLen n ++ rest) = n := by
  rw [msgpackArrayLen]
  split_ifs with h4 h16
  · have hb : (UInt8.ofNat (0x90 + n)).toNat = 0x90 + n := by
      rw [UInt8.toNat_ofNat']
      omega
    have hne : ∀ b : UInt8, 0xa0 ≤ b.toNat → UInt8.ofNat (0x90 + n) ≠ b := by
      rintro _ hle rfl
      omega
    rw [List.singleton_append, arrayLen, if_neg (hne _ (by decide)), if_neg (hne _ (by decide)),
      hb]
    omega
  · exact ofBeBytes_beBytes (by omega) rest
  · exact ofBeBytes_beBytes (by omega) rest

theorem EntryKind.toU8_injective : Function.Injective EntryKind.toU8 := by
  intro a b h
  cases a <;> cases b <;> first | rfl | exact absurd h (by decide)

/-- The bytes of an entry determine it, whatever follows. -/
theorem TreeEntry.bytes_append_inj {e e' : TreeEntry} {r r' : Bytes}
    (hname : e.name.length < 2 ^ 32) (hname' : e'.name.length < 2 ^ 32)
    (h : e.bytes ++ r = e'.bytes ++ r') : e = e' ∧ r = r' := by
  simp only [TreeEntry.bytes, List.append_assoc] at h
  have h := List.append_cancel_left h
  have hlen : e.name.length = e'.name.length := by
    have := congrArg strLen h
    rwa [strLen_msgpackStrLen hname, strLen_msgpackStrLen hname'] at this
  rw [hlen] at h
  obtain ⟨hn, h⟩ := List.append_inj (List.append_cancel_left h) hlen
  obtain ⟨hk, h⟩ := List.append_inj h rfl
  obtain ⟨hm, h⟩ := List.append_inj (List.append_cancel_left h) (by simp [length_beBytes])
  obtain ⟨hs, h⟩ := List.append_inj (List.append_cancel_left h) (by simp [length_beBytes])
  obtain ⟨hh, h⟩ := List.append_inj (List.append_cancel_left h) (by simp)
  refine ⟨?_, h⟩
  have hkind : e.kind = e'.kind := EntryKind.toU8_injective (by simpa using hk)
  have hmode : e.mode = e'.mode := UInt32.toNat_inj.mp
    (beBytes_injective e.mode.toNat_lt e'.mode.toNat_lt hm)
  have hsize : e.size = e'.size := UInt64.toNat_inj.mp
    (beBytes_injective e.size.toNat_lt e'.size.toNat_lt hs)
  have hhash : e.hash = e'.hash := Subtype.ext hh
  cases e
  cases e'
  exact TreeEntry.mk.injEq .. ▸ ⟨hn, hkind, hmode, hsize, hhash⟩

/-- **The bytes of a tree object determine its entries.** -/
theorem serializeTree_injective {es es' : List TreeEntry} (hlen : es.length < 2 ^ 32)
    (hlen' : es'.length < 2 ^ 32) (hname : ∀ e ∈ es, e.name.length < 2 ^ 32)
    (hname' : ∀ e ∈ es', e.name.length < 2 ^ 32)
    (h : Rust.serializeTree es = Rust.serializeTree es') : es = es' := by
  rw [Rust.serializeTree, Rust.serializeTree] at h
  have hlens : es.length = es'.length := by
    have := congrArg arrayLen h
    rwa [arrayLen_msgpackArrayLen hlen, arrayLen_msgpackArrayLen hlen'] at this
  rw [hlens] at h
  replace h := List.append_cancel_left h
  clear hlen hlen'
  induction es generalizing es' with
  | nil => exact (List.length_eq_zero_iff.mp hlens.symm).symm
  | cons e es ih =>
      cases es' with
      | nil => cases hlens
      | cons e' es' =>
          rw [List.flatMap_cons, List.flatMap_cons] at h
          obtain ⟨rfl, hrest⟩ := TreeEntry.bytes_append_inj (hname e List.mem_cons_self)
            (hname' e' List.mem_cons_self) h
          rw [ih (fun e he => hname e (List.mem_cons_of_mem _ he))
            (fun e he => hname' e (List.mem_cons_of_mem _ he)) (Nat.succ.inj hlens) hrest]

/-- The bytes of an array are not those of `nil`. -/
theorem serializeTree_ne_nil (es : List TreeEntry) : Rust.serializeTree es ≠ [0xc0] := by
  intro h
  rw [Rust.serializeTree, msgpackArrayLen] at h
  split_ifs at h with h4
  · have hb := congrArg UInt8.toNat (List.cons.inj h).1
    rw [UInt8.toNat_ofNat'] at hb
    have : (0xc0 : UInt8).toNat = 192 := rfl
    omega
  · exact absurd (List.cons.inj h).1 (by decide)
  · exact absurd (List.cons.inj h).1 (by decide)

end Cxdb
