import Mathlib.Data.List.Lex
import Kvdb.Lib.Bytes

/-!
# Entries and records

`ArenaEntry` is a byte string whose size fits the 32-bit `size` field
(`core/allocator/arena.h`), `InternalRecord` one versioned mutation
(`utils/record.h`).  The comparison of entries is the source's: `memcmp` on the
common length, then the sizes; `ArenaEntry.lt_iff` says that it is the
lexicographic order of the bytes.
-/

namespace Kvdb

/-- `Type`: what a record says about its key. -/
inductive RecType where
  | put
  | tombstone
  | undefined
deriving DecidableEq, Repr

namespace RecType

def toU8 : RecType → UInt8
  | put => 0
  | tombstone => 1
  | undefined => 2

/-- `is_valid_record_type`. -/
def isValid : RecType → Bool
  | put => true
  | tombstone => true
  | undefined => false

/-- The cast of a byte read back, for the two valid values. -/
def ofU8 (b : UInt8) : Option RecType :=
  if b = 0 then some put else if b = 1 then some tombstone else none

theorem ofU8_toU8 {t : RecType} (h : t.isValid = true) : ofU8 t.toU8 = some t := by
  cases t with
  | put => rfl
  | tombstone => rfl
  | undefined => cases h

end RecType

structure ArenaEntry where
  bytes : List UInt8
  size_lt : bytes.length < 2 ^ 32
deriving DecidableEq

namespace ArenaEntry

/-- `ArenaEntry::make_entry`: longer byte strings are rejected. -/
def makeEntry (bytes : List UInt8) : Option ArenaEntry :=
  if h : bytes.length < 2 ^ 32 then some ⟨bytes, h⟩ else none

/-- The entry of one byte. -/
def ofByte (b : UInt8) : ArenaEntry := ⟨[b], by simp⟩

def size (e : ArenaEntry) : Nat := e.bytes.length

/-- The stored 32-bit size. -/
def size32 (e : ArenaEntry) : UInt32 := UInt32.ofNat e.size

theorem size32_toNat (e : ArenaEntry) : e.size32.toNat = e.bytes.length := by
  simp only [size32, size, UInt32.toNat_ofNat']
  exact Nat.mod_eq_of_lt e.size_lt

def empty : ArenaEntry := ⟨[], by decide⟩

instance : Inhabited ArenaEntry := ⟨empty⟩

theorem ext_bytes {a b : ArenaEntry} (h : a.bytes = b.bytes) : a = b := by
  cases a
  cases b
  cases h
  rfl

/-- The first `n` bytes, as an entry. -/
def ofTake (bytes : List UInt8) (n : UInt32) : ArenaEntry :=
  ⟨bytes.take n.toNat, Nat.lt_of_le_of_lt (List.length_take_le _ _) n.toNat_lt⟩

/-- The sign of the first difference. -/
def memcmp : List UInt8 → List UInt8 → Ordering
  | a :: as, b :: bs => if a = b then memcmp as bs else if a < b then .lt else .gt
  | _, _ => .eq

/-- `operator<`: `memcmp` on the common length, then the sizes. -/
def lt (a b : ArenaEntry) : Bool :=
  match memcmp (a.bytes.take (min a.size b.size)) (b.bytes.take (min a.size b.size)) with
  | .lt => true
  | .gt => false
  | .eq => decide (a.size < b.size)

/-- The bytes as numbers, to compare them lexicographically. -/
def codes (e : ArenaEntry) : List Nat := e.bytes.map UInt8.toNat

theorem codes_injective : Function.Injective codes := by
  intro a b h
  have hinj : Function.Injective UInt8.toNat := fun _ _ h => UInt8.toNat_inj.mp h
  exact ext_bytes (List.map_injective_iff.mpr hinj h)

instance : LinearOrder ArenaEntry := LinearOrder.lift' codes codes_injective

theorem lt_iff_codes {a b : ArenaEntry} : a < b ↔ a.codes < b.codes := Iff.rfl

/-- The source's comparison on raw byte lists. -/
private def ltBytes (a b : List UInt8) : Bool :=
  match memcmp (a.take (min a.length b.length)) (b.take (min a.length b.length)) with
  | .lt => true
  | .gt => false
  | .eq => decide (a.length < b.length)

private theorem ltBytes_iff (a b : List UInt8) :
    ltBytes a b = true ↔ a.map UInt8.toNat < b.map UInt8.toNat := by
  induction a generalizing b with
  | nil =>
    cases b with
    | nil => simp [ltBytes, memcmp]
    | cons y ys => simp [ltBytes, memcmp]
  | cons x xs ih =>
    cases b with
    | nil => simp [ltBytes, memcmp]
    | cons y ys =>
      have hmin : min (x :: xs).length (y :: ys).length = min xs.length ys.length + 1 := by
        simp only [List.length_cons]
        omega
      simp only [List.map_cons]
      rw [List.cons_lt_cons_iff, ← ih ys]
      simp only [ltBytes, hmin, List.take_succ_cons, memcmp]
      by_cases hxy : x = y
      · subst hxy
        simp
      · by_cases hlt : x < y
        · have : x.toNat < y.toNat := UInt8.lt_iff_toNat_lt.mp hlt
          simp [hxy, hlt, this]
        · have hne : x.toNat ≠ y.toNat := fun h => hxy (UInt8.toNat_inj.mp h)
          have : ¬ x.toNat < y.toNat := fun h => hlt (UInt8.lt_iff_toNat_lt.mpr h)
          simp [hxy, hlt, this, hne]

/-- The comparison of the source is the lexicographic order of the bytes. -/
theorem lt_iff (a b : ArenaEntry) : a.lt b = true ↔ a < b :=
  ltBytes_iff a.bytes b.bytes

end ArenaEntry

/-- `InternalRecord`. -/
structure InternalRecord where
  key : ArenaEntry
  value : ArenaEntry
  type : RecType
  seqNum : UInt64
deriving DecidableEq

end Kvdb
