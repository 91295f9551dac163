import Kvdb.Utils.BlockIO
import Kvdb.Utils.Crc32
import Kvdb.Utils.Record

/-!
# Data blocks of a table file

The layout of `core/sstable_entities/data_section`: a block of 4096 bytes is a
9-byte header and a payload of records, each with 25 fixed bytes in front of its
key and value:

    type | payload_disk_size | crc32 | record | record | …
    key_size | value_size | type | flags | reserved | seq_num | key | value

A payload is the concatenation of its records' encodings.  Every string of at
least 25 bytes starts with fixed fields (`exists_fixed`), and when its lengths fit
into what follows, with a record (`exists_payload`).
-/

namespace Kvdb

open Faulty Bytes

def BLOCK_SIZE : Nat := 4 * 1024

/-- `BlockType`. -/
inductive BlockType where
  | data
  | index
  | bloom
  | metadata
deriving DecidableEq

def BlockType.toU8 : BlockType → UInt8
  | data => 1
  | index => 2
  | bloom => 3
  | metadata => 4

/-- `compare_keys`: the sign of the first difference, then the sizes. -/
def compareKeys (lhs rhs : List UInt8) : Ordering :=
  match ArenaEntry.memcmp (lhs.take (min lhs.length rhs.length)) (rhs.take (min lhs.length rhs.length)) with
  | .lt => .lt
  | .gt => .gt
  | .eq => if lhs.length < rhs.length then .lt else if lhs.length > rhs.length then .gt else .eq

namespace DataSection

/-- `DataSection::Header`, with the byte of its type. -/
structure Header where
  type : UInt8
  payloadDiskSize : UInt32
  crc32 : UInt32
deriving DecidableEq

namespace Header

def diskSize : Nat := 9

def encode (h : Header) : List UInt8 := u8Bytes h.type ++ (u32Bytes h.payloadDiskSize ++ u32Bytes h.crc32)

@[simp] theorem length_encode (h : Header) : h.encode.length = diskSize := by
  simp [encode, diskSize]

end Header

/-- The fixed part of a record. -/
structure Fixed where
  keySize : UInt32
  valueSize : UInt32
  type : UInt8
  flags : UInt32
  reserved : UInt32
  seqNum : UInt64
deriving DecidableEq

/-- `DataSection::Payload`: a record as it is stored, with the byte of its type. -/
structure Payload where
  key : ArenaEntry
  value : ArenaEntry
  type : UInt8
  flags : UInt32
  reserved : UInt32
  seqNum : UInt64
deriving DecidableEq

namespace Fixed

def encode (f : Fixed) : List UInt8 :=
  u32Bytes f.keySize ++ (u32Bytes f.valueSize ++ (u8Bytes f.type ++ (u32Bytes f.flags ++ (u32Bytes f.reserved ++
    u64Bytes f.seqNum))))

end Fixed

namespace Payload

def fixedPartDiskSize : Nat := 25

def diskSize (p : Payload) : Nat := fixedPartDiskSize + p.key.size + p.value.size

def fixed (p : Payload) : Fixed := ⟨p.key.size32, p.value.size32, p.type, p.flags, p.reserved, p.seqNum⟩

/-- The fields in file order. -/
def fields (p : Payload) : List (List UInt8) :=
  [u32Bytes p.key.size32, u32Bytes p.value.size32, u8Bytes p.type, u32Bytes p.flags, u32Bytes p.reserved,
    u64Bytes p.seqNum, p.key.bytes, p.value.bytes]

def encode (p : Payload) : List UInt8 := p.fields.flatten

/-- `Payload::append_crc32`. -/
def appendCrc32 [Zlib] (crc : UInt32) (p : Payload) : UInt32 := p.fields.foldl computeCrc32 crc

/-- `is_valid_record_type` on the stored byte. -/
def typeIsValid (type : UInt8) : Bool := type == RecType.put.toU8 || type == RecType.tombstone.toU8

/-- The record that is read back from a stored one. -/
def toRecord (p : Payload) : InternalRecord := ⟨p.key, p.value, (RecType.ofU8 p.type).getD .undefined, p.seqNum⟩

theorem encode_eq (p : Payload) : p.encode = p.fixed.encode ++ (p.key.bytes ++ p.value.bytes) := by
  simp [encode, fields, fixed, Fixed.encode]

@[simp] theorem length_fixed (f : Fixed) : f.encode.length = fixedPartDiskSize := by
  simp [Fixed.encode, fixedPartDiskSize]

@[simp] theorem length_encode (p : Payload) : p.encode.length = p.diskSize := by
  rw [encode_eq, List.length_append, List.length_append, length_fixed]
  simp only [diskSize, ArenaEntry.size]
  omega

end Payload

/-- `DataBlock::calculate_crc32`. -/
def calculateCrc32 [Zlib] (ps : List Payload) : UInt32 := ps.foldl Payload.appendCrc32 crc32Init

/-- The header of these records. -/
def derivedHeader [Zlib] (ps : List Payload) : Header :=
  ⟨BlockType.data.toU8, UInt32.ofNat (ps.map Payload.diskSize).sum, calculateCrc32 ps⟩

/-- What `DataBlock::write` leaves of a block, filled up to the next one. -/
def blockBytes [Zlib] (ps : List Payload) : List UInt8 :=
  (derivedHeader ps).encode ++ (ps.flatMap Payload.encode ++
    List.replicate (BLOCK_SIZE - Header.diskSize - (ps.map Payload.diskSize).sum) 0xCD)

/-! ## Bytes and records -/

open Payload

theorem length_flatMap_encode (ps : List Payload) : (ps.flatMap encode).length = (ps.map diskSize).sum := by
  rw [List.length_flatMap]
  congr 1
  exact List.map_congr_left fun p _ => length_encode p

/-- The checksum over the fields of the records is the one over their bytes. -/
theorem calculateCrc32_eq [Zlib] [LawfulZlib] {ps : List Payload} (hlen : (ps.flatMap encode).length < 2 ^ 32 - 1) :
    calculateCrc32 ps = computeCrc32 crc32Init (ps.flatMap encode) := by
  have hfold : ∀ (crc : UInt32), ps.foldl appendCrc32 crc = (ps.flatMap fields).foldl computeCrc32 crc := by
    intro crc
    induction ps generalizing crc with
    | nil => rfl
    | cons p ps ih =>
      rw [List.flatMap_cons, List.length_append] at hlen
      rw [List.foldl_cons, List.flatMap_cons, List.foldl_append, ih (by omega)]
      rfl
  have hbytes : (ps.flatMap fields).flatten = ps.flatMap encode := by
    clear hlen hfold
    induction ps with
    | nil => rfl
    | cons p ps ih => rw [List.flatMap_cons, List.flatMap_cons, List.flatten_append, ih, encode]
  rw [calculateCrc32, hfold, foldl_computeCrc32 _ _ (by rw [hbytes]; exact hlen), hbytes]

/-- Enough bytes start with the fixed part of a record. -/
theorem exists_fixed {l : List UInt8} (h : fixedPartDiskSize ≤ l.length) : ∃ f t, l = Fixed.encode f ++ t := by
  rw [fixedPartDiskSize] at h
  obtain ⟨keySize, t, rfl⟩ := exists_u32 (l := l) (by omega)
  rw [List.length_append, length_u32Bytes] at h
  obtain ⟨valueSize, t, rfl⟩ := exists_u32 (l := t) (by omega)
  rw [List.length_append, length_u32Bytes] at h
  obtain ⟨type, t, rfl⟩ := exists_u8 (l := t) (by omega)
  rw [List.length_append, length_u8Bytes] at h
  obtain ⟨flags, t, rfl⟩ := exists_u32 (l := t) (by omega)
  rw [List.length_append, length_u32Bytes] at h
  obtain ⟨reserved, t, rfl⟩ := exists_u32 (l := t) (by omega)
  rw [List.length_append, length_u32Bytes] at h
  obtain ⟨seqNum, t, rfl⟩ := exists_u64 (l := t) (by omega)
  refine ⟨⟨keySize, valueSize, type, flags, reserved, seqNum⟩, t, ?_⟩
  simp [Fixed.encode]

/-- The record with this fixed part and the bytes behind it. -/
def Fixed.payload (f : Fixed) (t : List UInt8) : Payload :=
  ⟨.ofTake t f.keySize, .ofTake (t.drop f.keySize.toNat) f.valueSize, f.type, f.flags, f.reserved, f.seqNum⟩

/-- When the lengths fit, the bytes start with a record. -/
theorem exists_payload {f : Fixed} {t : List UInt8} (h : f.keySize.toNat + f.valueSize.toNat ≤ t.length) :
    (f.payload t).fixed = f ∧
      f.encode ++ t = (f.payload t).encode ++ t.drop (f.keySize.toNat + f.valueSize.toNat) := by
  have hkey : (t.take f.keySize.toNat).length = f.keySize.toNat := by
    rw [List.length_take]
    omega
  have hvalue : ((t.drop f.keySize.toNat).take f.valueSize.toNat).length = f.valueSize.toNat := by
    rw [List.length_take, List.length_drop]
    omega
  have hfixed : (f.payload t).fixed = f := by
    have h1 : (f.payload t).key.size32 = f.keySize := by
      refine UInt32.toNat_inj.mp ?_
      rw [ArenaEntry.size32_toNat]
      exact hkey
    have h2 : (f.payload t).value.size32 = f.valueSize := by
      refine UInt32.toNat_inj.mp ?_
      rw [ArenaEntry.size32_toNat]
      exact hvalue
    rw [Payload.fixed, h1, h2]
    rfl
  refine ⟨hfixed, ?_⟩
  have hsplit : t = t.take f.keySize.toNat ++ ((t.drop f.keySize.toNat).take f.valueSize.toNat ++
      t.drop (f.keySize.toNat + f.valueSize.toNat)) := by
    rw [← List.drop_drop, List.take_append_drop, List.take_append_drop]
  rw [Payload.encode_eq, hfixed, List.append_assoc, List.append_assoc]
  congr 1

/-- Bytes that start with a fixed part and then are too short have no record at their start. -/
theorem payload_room {p : Payload} {f : Fixed} {t r : List UInt8} (h : f.encode ++ t = p.encode ++ r) :
    f = p.fixed ∧ f.keySize.toNat + f.valueSize.toNat ≤ t.length := by
  rw [Payload.encode_eq, List.append_assoc] at h
  obtain ⟨hf, ht⟩ := List.append_inj h (by rw [length_fixed, length_fixed])
  have hsame : f = p.fixed := by
    unfold Fixed.encode at hf
    obtain ⟨h1, hf⟩ := List.append_inj hf (by simp)
    obtain ⟨h2, hf⟩ := List.append_inj hf (by simp)
    obtain ⟨h3, hf⟩ := List.append_inj hf (by simp)
    obtain ⟨h4, hf⟩ := List.append_inj hf (by simp)
    obtain ⟨h5, h6⟩ := List.append_inj hf (by simp)
    have e1 := congrArg u32Of h1
    have e2 := congrArg u32Of h2
    have e3 := congrArg u8Of h3
    have e4 := congrArg u32Of h4
    have e5 := congrArg u32Of h5
    have e6 := congrArg u64Of h6
    simp only [u32Of_u32Bytes, u8Of_u8Bytes, u64Of_u64Bytes] at e1 e2 e3 e4 e5 e6
    cases f
    simp only at e1 e2 e3 e4 e5 e6
    subst e1 e2 e3 e4 e5 e6
    rfl
  refine ⟨hsame, ?_⟩
  rw [hsame]
  show p.key.size32.toNat + p.value.size32.toNat ≤ t.length
  rw [ht, ArenaEntry.size32_toNat, ArenaEntry.size32_toNat]
  simp only [List.length_append]
  omega

end DataSection

/-! ## Key order -/

theorem memcmp_swap (a b : List UInt8) : ArenaEntry.memcmp b a = (ArenaEntry.memcmp a b).swap := by
  induction a generalizing b with
  | nil =>
    cases b with
    | nil => rfl
    | cons y ys => rfl
  | cons x xs ih =>
    cases b with
    | nil => rfl
    | cons y ys =>
      simp only [ArenaEntry.memcmp]
      by_cases hxy : x = y
      · subst hxy
        rw [if_pos rfl, if_pos rfl]
        exact ih ys
      · rw [if_neg hxy, if_neg (Ne.symm hxy)]
        have hne : x.toNat ≠ y.toNat := fun h => hxy (UInt8.toNat_inj.mp h)
        by_cases hlt : x < y
        · have hnat := UInt8.lt_iff_toNat_lt.mp hlt
          rw [if_pos hlt, if_neg (by rw [UInt8.lt_iff_toNat_lt]; omega)]
          rfl
        · have hnat : ¬ x.toNat < y.toNat := fun h => hlt (UInt8.lt_iff_toNat_lt.mpr h)
          rw [if_neg hlt, if_pos (by rw [UInt8.lt_iff_toNat_lt]; omega)]
          rfl

theorem compareKeys_lt_iff {a b : ArenaEntry} : compareKeys a.bytes b.bytes = .lt ↔ a < b := by
  rw [← ArenaEntry.lt_iff]
  unfold compareKeys ArenaEntry.lt ArenaEntry.size
  cases ArenaEntry.memcmp (a.bytes.take (min a.bytes.length b.bytes.length))
      (b.bytes.take (min a.bytes.length b.bytes.length)) with
  | lt => simp
  | gt => simp
  | eq =>
    dsimp only
    by_cases h : a.bytes.length < b.bytes.length
    · simp [h]
    · rw [if_neg h]
      split
      · simp [h]
      · simp [h]

theorem compareKeys_gt_iff {a b : ArenaEntry} : compareKeys a.bytes b.bytes = .gt ↔ b < a := by
  have hswap : compareKeys b.bytes a.bytes = (compareKeys a.bytes b.bytes).swap := by
    unfold compareKeys
    rw [Nat.min_comm b.bytes.length, memcmp_swap]
    cases ArenaEntry.memcmp (a.bytes.take (min a.bytes.length b.bytes.length))
        (b.bytes.take (min a.bytes.length b.bytes.length)) with
    | lt => rfl
    | gt => rfl
    | eq =>
      dsimp only [Ordering.swap]
      by_cases h1 : a.bytes.length < b.bytes.length
      · rw [if_pos h1, if_neg (by omega), if_pos (by omega)]
      · by_cases h2 : b.bytes.length < a.bytes.length
        · rw [if_pos h2, if_neg h1, if_pos (by omega)]
        · rw [if_neg h2, if_neg (by omega), if_neg h1, if_neg (by omega)]
  rw [← compareKeys_lt_iff, hswap]
  cases compareKeys a.bytes b.bytes with
  | lt => simp [Ordering.swap]
  | eq => simp [Ordering.swap]
  | gt => simp [Ordering.swap]

theorem compareKeys_eq_iff {a b : ArenaEntry} : compareKeys a.bytes b.bytes = .eq ↔ a = b := by
  constructor
  · intro h
    refine le_antisymm (not_lt.mp fun hlt => ?_) (not_lt.mp fun hlt => ?_)
    · rw [compareKeys_gt_iff.mpr hlt] at h
      cases h
    · rw [compareKeys_lt_iff.mpr hlt] at h
      cases h
  · rintro rfl
    cases h : compareKeys a.bytes a.bytes with
    | lt => exact absurd (compareKeys_lt_iff.mp h) (lt_irrefl a)
    | gt => exact absurd (compareKeys_gt_iff.mp h) (lt_irrefl a)
    | eq => rfl

end Kvdb
