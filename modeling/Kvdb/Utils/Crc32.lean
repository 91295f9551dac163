import Kvdb.Lib.Bytes

/-!
# Checksums

zlib's `crc32` is not part of the repository: it is a parameter here, and no
result depends on more than that it is a function.  `crc32Bitwise` is the CRC-32
that zlib documents, for concrete runs.
-/

namespace Kvdb

/-- The `crc32` function of zlib: a running value and further bytes. -/
class Zlib where
  crc32 : UInt32 → List UInt8 → UInt32

/-- `::crc32(0, Z_NULL, 0)`, the initial value. -/
def crc32Init : UInt32 := 0

section

variable [Zlib]

/-- The chunk loop of `compute_crc32`: zlib takes at most `2 ^ 32 - 1` bytes at once. -/
def computeCrc32Loop : Nat → UInt32 → List UInt8 → UInt32
  | 0, crc, _ => crc
  | fuel + 1, crc, data =>
    if data = [] then crc
    else computeCrc32Loop fuel (Zlib.crc32 crc (data.take (2 ^ 32 - 1))) (data.drop (2 ^ 32 - 1))

/-- `compute_crc32`. -/
def computeCrc32 (crc : UInt32) (data : List UInt8) : UInt32 :=
  computeCrc32Loop (data.length / (2 ^ 32 - 1) + 1) crc data

/-- The checksum of fields added one after the other with `crc32_add_pod` and `compute_crc32`. -/
def crc32Fields (fields : List (List UInt8)) : UInt32 := fields.foldl computeCrc32 crc32Init

/-! ## Running values -/

/-- What zlib says of its running value: further bytes continue the checksum of the bytes before. -/
class LawfulZlib : Prop where
  crc32_append : ∀ crc a b, Zlib.crc32 (Zlib.crc32 crc a) b = Zlib.crc32 crc (a ++ b)

theorem computeCrc32_nil (crc : UInt32) : computeCrc32 crc [] = crc := by
  unfold computeCrc32 computeCrc32Loop
  rw [if_pos rfl]

/-- Fewer bytes than a chunk go to zlib at once. -/
theorem computeCrc32_chunk (crc : UInt32) {data : List UInt8} (hne : data ≠ []) (hlen : data.length < 2 ^ 32 - 1) :
    computeCrc32 crc data = Zlib.crc32 crc data := by
  have hdiv : data.length / (2 ^ 32 - 1) = 0 := Nat.div_eq_of_lt hlen
  unfold computeCrc32
  rw [hdiv, computeCrc32Loop, if_neg hne, computeCrc32Loop, List.take_of_length_le (by omega)]

theorem computeCrc32_append [LawfulZlib] (crc : UInt32) {a b : List UInt8} (hlen : a.length + b.length < 2 ^ 32 - 1) :
    computeCrc32 (computeCrc32 crc a) b = computeCrc32 crc (a ++ b) := by
  by_cases ha : a = []
  · rw [ha, computeCrc32_nil, List.nil_append]
  · by_cases hb : b = []
    · rw [hb, computeCrc32_nil, List.append_nil]
    · rw [computeCrc32_chunk crc ha (by omega), computeCrc32_chunk _ hb (by omega),
        computeCrc32_chunk crc (by simp [ha]) (by rw [List.length_append]; omega), LawfulZlib.crc32_append]

/-- Fields added one after the other give the checksum of the bytes they stand for. -/
theorem foldl_computeCrc32 [LawfulZlib] (fields : List (List UInt8)) (crc : UInt32)
    (hlen : fields.flatten.length < 2 ^ 32 - 1) : fields.foldl computeCrc32 crc = computeCrc32 crc fields.flatten := by
  induction fields generalizing crc with
  | nil => exact (computeCrc32_nil crc).symm
  | cons f fields ih =>
    rw [List.flatten_cons, List.length_append] at hlen
    rw [List.foldl_cons, List.flatten_cons, ih _ (by omega), computeCrc32_append crc hlen]

end

/-! ## The documented function -/

/-- One byte of the reflected CRC-32. -/
def crc32Step (crc : UInt32) (byte : UInt8) : UInt32 :=
  (List.range 8).foldl
    (fun c _ => if c &&& 1 = 1 then (c >>> 1) ^^^ 0xEDB88320 else c >>> 1) (crc ^^^ byte.toUInt32)

def crc32Bitwise (crc : UInt32) (data : List UInt8) : UInt32 :=
  data.foldl crc32Step (crc ^^^ 0xFFFFFFFF) ^^^ 0xFFFFFFFF

/-- zlib as documented. -/
abbrev documentedZlib : Zlib := ⟨crc32Bitwise⟩

theorem documentedZlib_lawful : @LawfulZlib documentedZlib := by
  refine @LawfulZlib.mk documentedZlib fun crc a b => ?_
  show (b.foldl crc32Step ((a.foldl crc32Step (crc ^^^ 0xFFFFFFFF) ^^^ 0xFFFFFFFF) ^^^ 0xFFFFFFFF)) ^^^ 0xFFFFFFFF =
    (a ++ b).foldl crc32Step (crc ^^^ 0xFFFFFFFF) ^^^ 0xFFFFFFFF
  rw [UInt32.xor_assoc, UInt32.xor_self, UInt32.xor_zero, List.foldl_append]

/-- The published check value of CRC-32, for the bytes of "123456789". -/
example : crc32Bitwise 0 [0x31, 0x32, 0x33, 0x34, 0x35, 0x36, 0x37, 0x38, 0x39] = 0xCBF43926 := by
  decide +kernel

end Kvdb
