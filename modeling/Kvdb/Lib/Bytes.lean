import Mathlib.Algebra.Order.Ring.Nat
import Mathlib.Data.List.Infix

/-!
# Little-endian integers and bytes at an offset

`leBytes n x` are the `n` low-order bytes of `x`, least significant first, and
`leNat` reads them back:

    leNat (leBytes n x) = x % 256 ^ n

`At b off d` says that the bytes `d` stand at offset `off` of `b`.  An encoding
that stands somewhere is taken apart with `At.left` and `At.right` and read with
`At.readAt`; it survives a cut behind its end (`At.take`) and anything appended
to the file (`At.mono`).
-/

namespace Bytes

def leBytes : Nat → Nat → List UInt8
  | 0, _ => []
  | n + 1, x => UInt8.ofNat x :: leBytes n (x / 256)

def leNat : List UInt8 → Nat
  | [] => 0
  | b :: bs => b.toNat + 256 * leNat bs

@[simp] theorem length_leBytes (n x : Nat) : (leBytes n x).length = n := by
  induction n generalizing x with
  | zero => rfl
  | succ n ih => simp [leBytes, ih]

theorem leNat_leBytes (n x : Nat) : leNat (leBytes n x) = x % 256 ^ n := by
  induction n generalizing x with
  | zero => simp [leBytes, leNat, Nat.mod_one]
  | succ n ih =>
    rw [leBytes, leNat, ih, Nat.pow_succ, Nat.mul_comm (256 ^ n) 256, Nat.mod_mul]
    simp [UInt8.toNat_ofNat']

theorem leNat_lt (bs : List UInt8) : leNat bs < 256 ^ bs.length := by
  induction bs with
  | nil => simp [leNat]
  | cons b bs ih =>
    have hb := b.toNat_lt
    rw [leNat, List.length_cons, Nat.pow_succ]
    omega

/-- Every byte string is the encoding of the number it stands for. -/
theorem leBytes_leNat (bs : List UInt8) : leBytes bs.length (leNat bs) = bs := by
  induction bs with
  | nil => rfl
  | cons b bs ih =>
    have hb := b.toNat_lt
    have hdiv : (b.toNat + 256 * leNat bs) / 256 = leNat bs := by omega
    have hbyte : UInt8.ofNat (b.toNat + 256 * leNat bs) = b := by
      refine UInt8.toNat_inj.mp ?_
      rw [UInt8.toNat_ofNat']
      omega
    rw [List.length_cons, leNat, leBytes, hdiv, ih, hbyte]

/-! ## Fixed-width fields -/

def u8Bytes (x : UInt8) : List UInt8 := [x]

def u16Bytes (x : UInt16) : List UInt8 := leBytes 2 x.toNat

def u32Bytes (x : UInt32) : List UInt8 := leBytes 4 x.toNat

def u64Bytes (x : UInt64) : List UInt8 := leBytes 8 x.toNat

def u8Of (bs : List UInt8) : UInt8 := UInt8.ofNat (leNat bs)

def u16Of (bs : List UInt8) : UInt16 := UInt16.ofNat (leNat bs)

def u32Of (bs : List UInt8) : UInt32 := UInt32.ofNat (leNat bs)

def u64Of (bs : List UInt8) : UInt64 := UInt64.ofNat (leNat bs)

@[simp] theorem length_u8Bytes (x : UInt8) : (u8Bytes x).length = 1 := rfl

@[simp] theorem length_u16Bytes (x : UInt16) : (u16Bytes x).length = 2 := length_leBytes _ _

@[simp] theorem length_u32Bytes (x : UInt32) : (u32Bytes x).length = 4 := length_leBytes _ _

@[simp] theorem length_u64Bytes (x : UInt64) : (u64Bytes x).length = 8 := length_leBytes _ _

@[simp] theorem u8Of_u8Bytes (x : UInt8) : u8Of (u8Bytes x) = x := by
  simp [u8Of, u8Bytes, leNat]

@[simp] theorem u16Of_u16Bytes (x : UInt16) : u16Of (u16Bytes x) = x := by
  have hx := x.toNat_lt
  rw [u16Of, u16Bytes, leNat_leBytes, Nat.mod_eq_of_lt (by simpa using hx), UInt16.ofNat_toNat]

@[simp] theorem u32Of_u32Bytes (x : UInt32) : u32Of (u32Bytes x) = x := by
  have hx := x.toNat_lt
  rw [u32Of, u32Bytes, leNat_leBytes, Nat.mod_eq_of_lt (by simpa using hx), UInt32.ofNat_toNat]

@[simp] theorem u64Of_u64Bytes (x : UInt64) : u64Of (u64Bytes x) = x := by
  have hx := x.toNat_lt
  rw [u64Of, u64Bytes, leNat_leBytes, Nat.mod_eq_of_lt (by simpa using hx), UInt64.ofNat_toNat]

theorem u8Bytes_u8Of {bs : List UInt8} (h : bs.length = 1) : u8Bytes (u8Of bs) = bs := by
  have hb := leBytes_leNat bs
  rw [h] at hb
  exact hb

theorem u32Bytes_u32Of {bs : List UInt8} (h : bs.length = 4) : u32Bytes (u32Of bs) = bs := by
  have hlt := leNat_lt bs
  have hb := leBytes_leNat bs
  rw [h] at hlt hb
  rw [u32Bytes, u32Of, UInt32.toNat_ofNat', Nat.mod_eq_of_lt (by omega), hb]

theorem u64Bytes_u64Of {bs : List UInt8} (h : bs.length = 8) : u64Bytes (u64Of bs) = bs := by
  have hlt := leNat_lt bs
  have hb := leBytes_leNat bs
  rw [h] at hlt hb
  rw [u64Bytes, u64Of, UInt64.toNat_ofNat', Nat.mod_eq_of_lt (by omega), hb]

/-- The first bytes of a long enough string are a field. -/
theorem exists_u8 {l : List UInt8} (h : 1 ≤ l.length) : ∃ x t, l = u8Bytes x ++ t := by
  refine ⟨u8Of (l.take 1), l.drop 1, ?_⟩
  rw [u8Bytes_u8Of (by simp; omega), List.take_append_drop]

theorem exists_u32 {l : List UInt8} (h : 4 ≤ l.length) : ∃ x t, l = u32Bytes x ++ t := by
  refine ⟨u32Of (l.take 4), l.drop 4, ?_⟩
  rw [u32Bytes_u32Of (by simp; omega), List.take_append_drop]

theorem exists_u64 {l : List UInt8} (h : 8 ≤ l.length) : ∃ x t, l = u64Bytes x ++ t := by
  refine ⟨u64Of (l.take 8), l.drop 8, ?_⟩
  rw [u64Bytes_u64Of (by simp; omega), List.take_append_drop]

/-! ## Bytes at an offset -/

/-- The `n` bytes at `off`, when the file has them. -/
def readAt (b : List UInt8) (off n : Nat) : Option (List UInt8) :=
  if off + n ≤ b.length then some ((b.drop off).take n) else none

/-- The bytes `d` stand at offset `off` of `b`. -/
def At (b : List UInt8) (off : Nat) (d : List UInt8) : Prop := d <+: b.drop off

variable {b d e : List UInt8} {off n : Nat}

theorem At.left (h : At b off (d ++ e)) : At b off d := (List.prefix_append d e).trans h

theorem At.right (h : At b off (d ++ e)) : At b (off + d.length) e := by
  obtain ⟨t, ht⟩ := h
  refine ⟨t, ?_⟩
  rw [← List.drop_drop, ← ht]
  simp

theorem At.append (h : At b off d) (h' : At b (off + d.length) e) : At b off (d ++ e) := by
  obtain ⟨t, ht⟩ := h
  rw [At, ← List.drop_drop, ← ht, List.drop_left] at h'
  rw [At, ← ht]
  exact (List.prefix_append_right_inj d).mpr h'

theorem at_of_readAt (h : readAt b off n = some d) : At b off d ∧ d.length = n := by
  unfold Bytes.readAt at h
  split at h
  · cases h
    refine ⟨List.take_prefix _ _, ?_⟩
    rw [List.length_take, List.length_drop]
    omega
  · cases h

theorem At.end_le (h : At b off d) (hne : d ≠ []) : off + d.length ≤ b.length := by
  have hl := h.length_le
  have hd := List.length_pos_iff.mpr hne
  rw [List.length_drop] at hl
  omega

theorem At.readAt (h : At b off d) (hne : d ≠ []) : readAt b off d.length = some d := by
  rw [Bytes.readAt, if_pos (h.end_le hne), List.prefix_iff_eq_take.mp h]
  simp

theorem At.take (h : At b off d) (hn : off + d.length ≤ n) : At (b.take n) off d := by
  rw [At, List.drop_take]
  exact List.prefix_take_iff.mpr ⟨h, by omega⟩

theorem At.mono (h : At b off d) (c : List UInt8) (hne : d ≠ []) : At (b ++ c) off d := by
  have hle := h.end_le hne
  rw [At, List.drop_append_of_le_length (by omega)]
  exact h.trans (List.prefix_append _ _)

theorem at_append (b d c : List UInt8) : At (b ++ (d ++ c)) b.length d := by
  simp [At]

end Bytes
