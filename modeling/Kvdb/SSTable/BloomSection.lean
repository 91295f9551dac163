import Kvdb.SSTable.DataSection

/-!
# The Bloom filter of a table

`core/sstable_entities/bloom_section`: 128 byte-sized slots, two of them for each
key.  A filter marks slots and never clears one, so it contains every key that
was added (`addKey_spec`); its section is written into one block and read back
(`load_encode`).

    rebuild blocks = .ok b  →  write, load  →  the same b, which contains every key of the blocks
-/

namespace Kvdb

open Faulty Bytes

def BLOOM_HASH_COUNT : UInt32 := 2

def BLOOM_MASK_BIT_SIZE : Nat := 128

/-- `fnv1a64`. -/
def fnv1a64 (data : List UInt8) (seed : UInt64) : UInt64 :=
  data.foldl (fun hash byte => (hash ^^^ byte.toUInt64) * 1099511628211) (14695981039346656037 ^^^ seed)

/-- `bloom_hash_i`. -/
def bloomHashI (key : List UInt8) (index : UInt32) : UInt64 :=
  let first := fnv1a64 key 0x9E3779B97F4A7C15
  let second := fnv1a64 key 0xC2B2AE3D27D4EB4F
  first + index.toUInt64 * second

/-- `can_read_range`. -/
def canReadRange (offset readSize fileSize : Nat) : Except Status Unit :=
  if offset > fileSize then .error ⟨.invalidOffset, "Offset exceeds file size"⟩
  else if readSize > fileSize - offset then .error ⟨.invalidReadSize, "Read size exceeds available data"⟩
  else .ok ()

namespace BloomSection

/-- `BloomSection::Header`, with the byte of its type. -/
structure Header where
  type : UInt8
  payloadSize : UInt32
  crc32 : UInt32
deriving DecidableEq

/-- `BloomSection::Payload`; the mask is an array of fixed size. -/
structure Payload where
  bloomBits : UInt64
  hashCount : UInt32
  keyCount : UInt32
  mask : List UInt8
  mask_length : mask.length = BLOOM_MASK_BIT_SIZE
deriving DecidableEq

/-! ## The filter -/

namespace Payload

def diskSize : Nat := 16 + BLOOM_MASK_BIT_SIZE

/-- A mask without a marked slot, as `rebuild` starts. -/
def blank : Payload where
  bloomBits := UInt64.ofNat BLOOM_MASK_BIT_SIZE
  hashCount := BLOOM_HASH_COUNT
  keyCount := 0
  mask := List.replicate BLOOM_MASK_BIT_SIZE 0
  mask_length := List.length_replicate

/-- `Payload::validate`. -/
def validate (p : Payload) : Except Status Unit :=
  if p.mask.length ≠ BLOOM_MASK_BIT_SIZE then
    .error ⟨.invalidPayloadSize, "Bloom mask size does not match the version-1 slot count"⟩
  else if p.bloomBits = 0 ∨ p.bloomBits.toNat ≠ p.mask.length then
    .error ⟨.invalidPayloadSize, "Bloom slot count is zero or differs from the mask size"⟩
  else if p.hashCount ≠ BLOOM_HASH_COUNT ∨ p.hashCount = 0 then
    .error ⟨.notSupported, "Bloom hash count is not supported by this format version"⟩
  else if p.mask.any (· > 1) then
    .error ⟨.invalidArgument, "Bloom mask contains a non-Boolean slot value"⟩
  else if (p.keyCount = 0 ∧ p.mask.any (· ≠ 0)) ∨ (p.keyCount ≠ 0 ∧ ¬p.mask.any (· ≠ 0)) then
    .error ⟨.invalidState, "Bloom key count and mask contents are inconsistent"⟩
  else .ok ()

/-- The slot of a key for one hash. -/
def slot (p : Payload) (key : List UInt8) (i : Nat) : Nat := (bloomHashI key (UInt32.ofNat i) % p.bloomBits).toNat

/-- The slots of a key. -/
def slots (p : Payload) (key : List UInt8) : List Nat := (List.range p.hashCount.toNat).map (p.slot key)

/-- Mark slots. -/
def mark (mask : List UInt8) (slots : List Nat) : List UInt8 := slots.foldl (fun mask slot => mask.set slot 1) mask

theorem length_mark (mask : List UInt8) (slots : List Nat) : (mark mask slots).length = mask.length := by
  induction slots generalizing mask with
  | nil => rfl
  | cons i slots ih => exact (ih _).trans (List.length_set ..)

/-- `add_key_to_payload`. -/
def addKey (p : Payload) (key : List UInt8) : Except Status Payload :=
  match p.validate with
  | .error e => .error ⟨.invalidState, "cannot add a key to an invalid Bloom payload: " ++ e.message⟩
  | .ok () =>
    if p.keyCount.toNat = 2 ^ 32 - 1 then .error ⟨.dataTypeOverflow, "Bloom key count would overflow uint32_t"⟩
    else
      .ok { p with
        keyCount := p.keyCount + 1
        mask := mark p.mask (p.slots key)
        mask_length := (length_mark ..).trans p.mask_length }

/-- `BloomSection::may_contain` on the payload. -/
def mayContain (p : Payload) (key : List UInt8) : Bool :=
  match p.validate with
  | .error _ => true
  | .ok () => (p.slots key).all fun i => p.mask[i]?.getD 0 ≠ 0

/-- `Payload::calculate_crc32`. -/
def calculateCrc32 [Zlib] (p : Payload) : UInt32 :=
  crc32Fields [u64Bytes p.bloomBits, u32Bytes p.hashCount, u32Bytes p.keyCount, p.mask]

end Payload

end BloomSection

/-- `BloomSection`. -/
structure BloomSection where
  header : BloomSection.Header
  payload : BloomSection.Payload
deriving DecidableEq

namespace BloomSection

def Header.diskSize : Nat := 9

def diskSize : Nat := Header.diskSize + Payload.diskSize

section

variable [Zlib]

/-- The section of a payload, with the header that `recompute_crc32` derives. -/
def ofPayload (p : Payload) : BloomSection where
  header := ⟨BlockType.bloom.toU8, UInt32.ofNat Payload.diskSize, p.calculateCrc32⟩
  payload := p

/-- `BloomSection::rebuild` from the records of the data blocks. -/
def rebuild (blocks : List (List DataSection.Payload)) : Except Status BloomSection := do
  let staged ← blocks.foldlM (fun p block => block.foldlM (fun p r => p.addKey r.key.bytes) p) Payload.blank
  return ofPayload staged

def mayContain (b : BloomSection) (key : List UInt8) : Bool := b.payload.mayContain key

end

/-! ## Writing and reading -/

/-- `validate_cursor`. -/
def validateCursor : WriterM Status Unit := do
  let w ← Faulty.get
  ensure (w.bytes.length == w.offset)
    ⟨.invalidOffset, "tracked Bloom-section offset differs from the writable file cursor"⟩

/-- `fits_in_block` at the writer's offset. -/
def fitsHere (size : Nat) : WriterM Status Unit := do
  let w ← Faulty.get
  lift (fitsInBlock w.offset size BLOCK_SIZE)

namespace Header

def validate (h : Header) : Except Status Unit :=
  if h.type ≠ BlockType.bloom.toU8 then .error ⟨.invalidBlockType, "Bloom header has an invalid block type"⟩
  else if h.payloadSize.toNat ≠ Payload.diskSize then
    .error ⟨.invalidPayloadSize, "Bloom header payload size does not match the version-1 format"⟩
  else .ok ()

def write (h : Header) : WriterM Status Unit := do
  lift h.validate
  validateCursor
  fitsHere diskSize
  writeU8 h.type BLOCK_SIZE
  writeU32Le h.payloadSize BLOCK_SIZE
  writeU32Le h.crc32 BLOCK_SIZE

def load : FileReader Header := do
  let offset ← Reader.offset
  Reader.lift (fitsInBlock offset diskSize BLOCK_SIZE)
  let type ← readU8 BLOCK_SIZE
  Reader.ensure (type == BlockType.bloom.toU8) ⟨.invalidBlockType, "expected a Bloom block header"⟩
  let payloadSize ← readU32Le BLOCK_SIZE
  Reader.ensure (payloadSize.toNat == Payload.diskSize)
    ⟨.invalidPayloadSize, "Bloom payload size is not valid for the version-1 format"⟩
  let crc32 ← readU32Le BLOCK_SIZE
  pure ⟨type, payloadSize, crc32⟩

def encode (h : Header) : List UInt8 := u8Bytes h.type ++ (u32Bytes h.payloadSize ++ u32Bytes h.crc32)

end Header

namespace Payload

def write (p : Payload) : WriterM Status Unit := do
  lift p.validate
  validateCursor
  fitsHere diskSize
  writeU64Le p.bloomBits BLOCK_SIZE
  writeU32Le p.hashCount BLOCK_SIZE
  writeU32Le p.keyCount BLOCK_SIZE
  writeBytes p.mask BLOCK_SIZE

/-- The array of a mask that was read. -/
def maskOf (bytes : List UInt8) : List UInt8 := (List.range BLOOM_MASK_BIT_SIZE).map fun i => bytes[i]?.getD 0

theorem length_maskOf (bytes : List UInt8) : (maskOf bytes).length = BLOOM_MASK_BIT_SIZE := by
  rw [maskOf, List.length_map, List.length_range]

def load : FileReader Payload := do
  let offset ← Reader.offset
  Reader.lift (fitsInBlock offset diskSize BLOCK_SIZE)
  let bloomBits ← readU64Le BLOCK_SIZE
  let hashCount ← readU32Le BLOCK_SIZE
  let keyCount ← readU32Le BLOCK_SIZE
  let mask ← readBytes BLOOM_MASK_BIT_SIZE BLOCK_SIZE
  pure ⟨bloomBits, hashCount, keyCount, maskOf mask, length_maskOf mask⟩

def encode (p : Payload) : List UInt8 :=
  u64Bytes p.bloomBits ++ (u32Bytes p.hashCount ++ (u32Bytes p.keyCount ++ p.mask))

end Payload

section

variable [Zlib]

/-- The part of `BloomSection::write` behind the alignment. -/
def writeAligned (b : BloomSection) : WriterM Status Unit := do
  fitsHere diskSize
  b.header.write
  b.payload.write

/-- `BloomSection::write`: the section with its recomputed header, and its offset. -/
def write (b : BloomSection) : WriterM Status (BloomSection × Nat) := do
  validateCursor
  lift b.payload.validate
  alignToBlockBoundary BLOCK_SIZE
  let w ← Faulty.get
  writeAligned (ofPayload b.payload)
  pure (ofPayload b.payload, w.offset)

/-- `BloomSection::load`. -/
def load (bloomOffset : Nat) : FileReader BloomSection := fun file _ =>
  if bloomOffset % BLOCK_SIZE ≠ 0 then
    .error ⟨.invalidBlockAlignment, "Bloom section offset is not block-aligned"⟩
  else do
    let fileSize ← file.getFileSize
    canReadRange bloomOffset diskSize fileSize
    let (header, offset) ← Header.load file bloomOffset
    let (payload, offset) ← Payload.load file offset
    if payload.calculateCrc32 ≠ header.crc32 then .error ⟨.checksumMismatch, "Bloom payload CRC mismatch"⟩
    else
      payload.validate
      pure (⟨header, payload⟩, offset)

end

/-! ## No key is lost -/

namespace Payload

section

variable {p : Payload} {key key' : List UInt8}

theorem any_mask (mask : List UInt8) : mask.any (· ≠ 0) = true ↔ ¬∀ v ∈ mask, v = 0 := by
  simp

theorem validate_ok_iff : p.validate = .ok () ↔
    p.bloomBits.toNat = BLOOM_MASK_BIT_SIZE ∧ p.hashCount = BLOOM_HASH_COUNT ∧ (∀ v ∈ p.mask, v ≤ 1) ∧
      (p.keyCount = 0 ↔ ∀ v ∈ p.mask, v = 0) := by
  unfold validate
  rw [if_neg (not_not.mpr p.mask_length), p.mask_length]
  by_cases hbits : p.bloomBits.toNat = BLOOM_MASK_BIT_SIZE
  · have hne : ¬(p.bloomBits = 0 ∨ p.bloomBits.toNat ≠ BLOOM_MASK_BIT_SIZE) := by
      rintro (h | h)
      · rw [h] at hbits
        cases hbits
      · exact h hbits
    rw [if_neg hne]
    by_cases hhash : p.hashCount = BLOOM_HASH_COUNT
    · rw [hhash, if_neg (by decide)]
      by_cases hvalues : p.mask.any (· > 1) = true
      · rw [if_pos hvalues]
        refine iff_of_false nofun fun h => ?_
        obtain ⟨v, hv, hgt⟩ := List.any_eq_true.mp hvalues
        exact UInt8.not_lt.mpr (h.2.2.1 v hv) (of_decide_eq_true hgt)
      · rw [if_neg hvalues]
        have hle : ∀ v ∈ p.mask, v ≤ 1 := by
          intro v hv
          refine UInt8.not_lt.mp fun hgt => hvalues ?_
          exact List.any_eq_true.mpr ⟨v, hv, decide_eq_true hgt⟩
        simp only [any_mask]
        by_cases hcount : p.keyCount = 0
        · by_cases hzero : ∀ v ∈ p.mask, v = 0
          · rw [if_neg (by tauto)]
            exact iff_of_true rfl ⟨hbits, trivial, hle, iff_of_true hcount hzero⟩
          · rw [if_pos (.inl ⟨hcount, hzero⟩)]
            exact iff_of_false nofun fun h => hzero (h.2.2.2.mp hcount)
        · by_cases hzero : ∀ v ∈ p.mask, v = 0
          · rw [if_pos (.inr ⟨hcount, not_not.mpr hzero⟩)]
            exact iff_of_false nofun fun h => hcount (h.2.2.2.mpr hzero)
          · rw [if_neg (by tauto)]
            exact iff_of_true rfl ⟨hbits, trivial, hle, iff_of_false hcount hzero⟩
    · rw [if_pos (.inl hhash)]
      exact iff_of_false nofun fun h => hhash h.2.1
  · rw [if_pos (.inr hbits)]
    exact iff_of_false nofun fun h => hbits h.1

/-- The slots of a valid filter are inside its mask. -/
theorem slot_lt (h : p.validate = .ok ()) {i : Nat} (hi : i ∈ p.slots key) : i < p.mask.length := by
  obtain ⟨j, -, rfl⟩ := List.mem_map.mp hi
  have hbits := (validate_ok_iff.mp h).1
  rw [p.mask_length, ← hbits, slot, UInt64.toNat_mod]
  refine Nat.mod_lt _ ?_
  rw [hbits]
  decide

theorem mark_getElem? (mask : List UInt8) (slots : List Nat) (i : Nat) :
    (mark mask slots)[i]? = if i ∈ slots ∧ i < mask.length then some 1 else mask[i]? := by
  induction slots generalizing mask with
  | nil => simp [mark]
  | cons j slots ih =>
    rw [show mark mask (j :: slots) = mark (mask.set j 1) slots from rfl, ih, List.length_set, List.getElem?_set]
    by_cases hi : i < mask.length
    · by_cases hj : j = i
      · subst hj
        simp [hi]
      · have hj' : ¬i = j := fun heq => hj heq.symm
        simp [hi, hj, hj']
    · by_cases hj : j = i
      · subst hj
        simp [hi]
      · simp [hi, hj]

theorem mem_mark {mask : List UInt8} {slots : List Nat} {v : UInt8} (h : v ∈ mark mask slots) :
    v = 1 ∨ v ∈ mask := by
  obtain ⟨i, hi⟩ := List.mem_iff_getElem?.mp h
  rw [mark_getElem?] at hi
  split at hi
  · exact .inl (Option.some.inj hi).symm
  · exact .inr (List.mem_iff_getElem?.mpr ⟨i, hi⟩)

/-- All slots of the key are marked. -/
def Contains (p : Payload) (key : List UInt8) : Prop := ∀ i ∈ p.slots key, p.mask[i]? = some 1

theorem Contains.mayContain (h : p.Contains key) : p.mayContain key = true := by
  unfold Payload.mayContain
  split
  · rfl
  · refine List.all_eq_true.mpr fun i hi => ?_
    rw [h i hi]
    rfl

/-- Adding a key keeps the filter valid, marks the key and clears nothing. -/
theorem addKey_spec (h : p.validate = .ok ()) (hcount : p.keyCount.toNat < 2 ^ 32 - 1) :
    ∃ q, p.addKey key = .ok q ∧ q.validate = .ok () ∧ q.keyCount.toNat = p.keyCount.toNat + 1 ∧
      q.Contains key ∧
      ∀ key', p.Contains key' → q.Contains key' := by
  have hcount' : (p.keyCount + 1).toNat = p.keyCount.toNat + 1 := by
    rw [UInt32.toNat_add]
    exact Nat.mod_eq_of_lt (by simp; omega)
  obtain ⟨hbits, hhash, hle, -⟩ := validate_ok_iff.mp h
  unfold addKey
  rw [h]
  dsimp only
  rw [if_neg (by omega)]
  refine ⟨_, rfl, validate_ok_iff.mpr ⟨hbits, hhash, ?_, ?_⟩, hcount', ?_, ?_⟩
  · intro v hv
    rcases mem_mark hv with rfl | hv
    · exact UInt8.le_refl 1
    · exact hle v hv
  · refine iff_of_false ?_ fun hzero => ?_
    · intro heq
      have hzero := congrArg UInt32.toNat heq
      rw [hcount'] at hzero
      cases hzero
    · have hmem : p.slot key 0 ∈ p.slots key := by
        refine List.mem_map_of_mem (List.mem_range.mpr ?_)
        rw [hhash]
        decide
      have hone : (mark p.mask (p.slots key))[p.slot key 0]? = some 1 := by
        rw [mark_getElem?, if_pos ⟨hmem, slot_lt h hmem⟩]
      have hval := hzero 1 (List.mem_of_getElem? hone)
      cases hval
  · intro i hi
    exact (mark_getElem? ..).trans (if_pos ⟨hi, slot_lt h hi⟩)
  · intro key' hkey' i hi
    refine (mark_getElem? ..).trans ?_
    split
    · rfl
    · exact hkey' i hi

theorem addKey_overflow (h : p.validate = .ok ()) (hcount : p.keyCount.toNat = 2 ^ 32 - 1) :
    p.addKey key = .error ⟨.dataTypeOverflow, "Bloom key count would overflow uint32_t"⟩ := by
  unfold addKey
  rw [h]
  exact if_pos hcount

theorem validate_blank : blank.validate = .ok () := by
  have hzero : ∀ v ∈ blank.mask, v = 0 := fun v hv => List.eq_of_mem_replicate hv
  refine validate_ok_iff.mpr ⟨rfl, rfl, ?_, iff_of_true rfl hzero⟩
  intro v hv
  rw [hzero v hv]
  decide

/-- Keys added one by one. -/
def addKeys (p : Payload) (keys : List ArenaEntry) : Except Status Payload :=
  keys.foldlM (fun (p : Payload) (k : ArenaEntry) => p.addKey k.bytes) p

theorem addKeys_cons (p : Payload) (k : ArenaEntry) (keys : List ArenaEntry) :
    p.addKeys (k :: keys) = p.addKey k.bytes >>= fun q => q.addKeys keys := List.foldlM_cons

/-- The filter after keys were added, unless there are too many of them. -/
theorem addKeys_spec (keys : List ArenaEntry) (h : p.validate = .ok ()) :
    (p.keyCount.toNat + keys.length < 2 ^ 32 ∧ ∃ q, p.addKeys keys = .ok q ∧
        q.validate = .ok () ∧ (∀ k ∈ keys, q.Contains k.bytes) ∧ ∀ key, p.Contains key → q.Contains key) ∨
      2 ^ 32 ≤ p.keyCount.toNat + keys.length ∧ p.addKeys keys =
        .error ⟨.dataTypeOverflow, "Bloom key count would overflow uint32_t"⟩ := by
  induction keys generalizing p with
  | nil =>
    have hlt := p.keyCount.toNat_lt
    exact .inl ⟨by simpa using hlt, p, rfl, h, by simp, fun _ hk => hk⟩
  | cons k keys ih =>
    rw [List.length_cons, addKeys_cons]
    by_cases hcount : p.keyCount.toNat = 2 ^ 32 - 1
    · rw [addKey_overflow h hcount]
      exact .inr ⟨by omega, rfl⟩
    · have hlt := p.keyCount.toNat_lt
      obtain ⟨q, hadd, hq, hqcount, hkey, hkeep⟩ := @addKey_spec p k.bytes h (by omega)
      rw [hadd, ok_bind]
      rcases ih hq with ⟨hle, r, hr, hvalid, hall, hold⟩ | ⟨hle, herr⟩
      · refine .inl ⟨by omega, r, hr, hvalid, ?_, fun key hk => hold key (hkeep key hk)⟩
        intro k' hk'
        rcases List.mem_cons.mp hk' with rfl | hk'
        · exact hold _ hkey
        · exact hall k' hk'
      · exact .inr ⟨by omega, herr⟩

end

end Payload

/-! ## The round trip -/

def encode (b : BloomSection) : List UInt8 := b.header.encode ++ b.payload.encode

@[simp] theorem Header.length_encode (h : Header) : h.encode.length = diskSize := by
  simp [Header.encode, diskSize]

@[simp] theorem Payload.length_encode (p : Payload) : p.encode.length = diskSize := by
  simp only [Payload.encode, List.length_append, length_u64Bytes, length_u32Bytes, p.mask_length, diskSize]
  omega

theorem length_encode (b : BloomSection) : b.encode.length = diskSize := by
  rw [encode, List.length_append, Header.length_encode, Payload.length_encode, diskSize]

section

variable {k : WriterM Status Unit} {d : List UInt8} {size : Nat}

/-- Room that the following bytes have anyway. -/
theorem fitsHere_fitting (hs : size ≤ d.length) (hk : AppendsFitting BLOCK_SIZE k d) :
    AppendsFitting BLOCK_SIZE (fitsHere size >>= fun _ => k) d := by
  intro w hw hfit
  have hok : fitsInBlock w.offset size BLOCK_SIZE = .ok () := by
    unfold fitsInBlock
    rw [if_neg (by decide)]
    rcases hfit with h0 | hle
    · rw [h0] at hs
      exact if_pos (by simpa using hs)
    · split
      · rfl
      · exact if_pos (by omega)
  have hhere : fitsHere size w = (.ok (), w) := by
    unfold fitsHere
    rw [bind_ok (get_apply w), hok]
    rfl
  rw [bind_ok hhere]
  exact hk w hw hfit

theorem validateCursor_apply {w : Writer Status} (h : w.Synced) : validateCursor w = (.ok (), w) := by
  rw [validateCursor, bind_ok (get_apply w), ensure_apply]
  simp [h.symm]

theorem check_fitting {x : Except Status Unit} (hx : x = .ok ()) (hk : AppendsFitting BLOCK_SIZE k d) :
    AppendsFitting BLOCK_SIZE (lift x >>= fun _ => validateCursor >>= fun _ => k) d := by
  intro w hw hfit
  rw [hx, bind_ok (lift_ok () w), bind_ok (validateCursor_apply hw)]
  exact hk w hw hfit

theorem fits_of_decodes {α : Type} {r : Unit → FileReader α} {x : α} (hs : size ≤ d.length)
    (hr : Decodes BLOCK_SIZE (r ()) d x) :
    Decodes BLOCK_SIZE (Reader.offset >>= fun o => Reader.lift (fitsInBlock o size BLOCK_SIZE) >>= r) d x := by
  intro file off hf hfit hat
  have hok : fitsInBlock off size BLOCK_SIZE = .ok () := by
    unfold fitsInBlock
    rw [if_neg (by decide)]
    rcases hfit with h0 | hle
    · rw [h0] at hs
      exact if_pos (by simpa using hs)
    · split
      · rfl
      · exact if_pos (by omega)
  rw [Reader.offset_bind, hok]
  exact hr file off hf hfit hat

end

theorem Header.write_fitting {h : Header} (hv : h.validate = .ok ()) : AppendsFitting BLOCK_SIZE h.write h.encode := by
  have hb : 0 < BLOCK_SIZE := by decide
  have hu32 : ∀ x : UInt32, u32Bytes x ≠ [] := fun x h0 => by simpa using congrArg List.length h0
  refine check_fitting hv (fitsHere_fitting h.length_encode.ge ?_)
  exact (writeField_fitting hb (by simp [u8Bytes])).bind
    ((writeField_fitting hb (hu32 _)).bind (writeField_fitting hb (hu32 _)))

theorem Payload.write_fitting {p : Payload} (hv : p.validate = .ok ()) :
    AppendsFitting BLOCK_SIZE p.write p.encode := by
  have hb : 0 < BLOCK_SIZE := by decide
  have hu32 : ∀ x : UInt32, u32Bytes x ≠ [] := fun x h0 => by simpa using congrArg List.length h0
  have hu64 : u64Bytes p.bloomBits ≠ [] := fun h0 => by simpa using congrArg List.length h0
  have hmask : p.mask ≠ [] := fun h0 => by simpa [h0, BLOOM_MASK_BIT_SIZE] using p.mask_length
  refine check_fitting hv (fitsHere_fitting p.length_encode.ge ?_)
  exact (writeField_fitting hb hu64).bind
    ((writeField_fitting hb (hu32 _)).bind ((writeField_fitting hb (hu32 _)).bind (writeField_fitting hb hmask)))

theorem Header.decodes {h : Header} (hv : h.validate = .ok ()) : Decodes BLOCK_SIZE Header.load h.encode h := by
  have htype : h.type = BlockType.bloom.toU8 := by
    by_contra hne
    unfold validate at hv
    rw [if_pos hne] at hv
    cases hv
  have hsize : h.payloadSize.toNat = Payload.diskSize := by
    by_contra hne
    unfold validate at hv
    rw [if_neg (not_not.mpr htype), if_pos hne] at hv
    cases hv
  refine fits_of_decodes h.length_encode.ge ?_
  refine (decodes_u8 (by decide) h.type).bind (Decodes.guard (by rw [htype]; rfl) ?_)
  refine (decodes_u32 (by decide) h.payloadSize).bind (Decodes.guard (by rw [hsize]; rfl) ?_)
  exact (decodes_u32 (by decide) h.crc32).last (decodes_pure h)

theorem Payload.maskOf_mask (p : Payload) : maskOf p.mask = p.mask := by
  refine List.ext_getElem? fun i => ?_
  rw [maskOf, List.getElem?_map]
  by_cases hi : i < BLOOM_MASK_BIT_SIZE
  · rw [List.getElem?_range hi, Option.map_some, List.getElem?_eq_getElem (p.mask_length.symm ▸ hi)]
    rfl
  · have hlen := p.mask_length
    rw [List.getElem?_eq_none (by rw [List.length_range]; omega), List.getElem?_eq_none (by omega)]
    rfl

theorem Payload.decodes (p : Payload) : Decodes BLOCK_SIZE Payload.load p.encode p := by
  have hmask := decodes_bytes (show 0 < BLOCK_SIZE by decide) p.mask
  rw [p.mask_length] at hmask
  have hself : (⟨p.bloomBits, p.hashCount, p.keyCount, maskOf p.mask, length_maskOf p.mask⟩ : Payload) = p := by
    obtain ⟨bits, hash, count, mask, hlen⟩ := p
    simp only [Payload.mk.injEq, true_and]
    exact maskOf_mask ⟨bits, hash, count, mask, hlen⟩
  refine fits_of_decodes p.length_encode.ge ?_
  refine (decodes_u64 (by decide) p.bloomBits).bind ?_
  refine (decodes_u32 (by decide) p.hashCount).bind ?_
  refine (decodes_u32 (by decide) p.keyCount).bind ?_
  exact hmask.last (hself ▸ decodes_pure _)

/-- The alignment appends up to the next block edge. -/
theorem align_append {w : Writer Status} (hw : w.Synced) :
    ∃ d, alignToBlockBoundary BLOCK_SIZE w = append d w ∧ (w.offset + d.length) % BLOCK_SIZE = 0 := by
  by_cases hin : w.offset % BLOCK_SIZE = 0
  · refine ⟨[], ?_, by simpa using hin⟩
    have ho : (w.offset == w.bytes.length) = true := beq_iff_eq.mpr hw
    rw [alignToBlockBoundary, bind_ok (by rw [ensure_apply, if_pos (by decide)]), bind_ok (get_apply w),
      bind_ok (by rw [ensure_apply, if_pos ho]), if_pos hin]
    rfl
  · refine ⟨_, alignToBlockBoundary_apply (by decide) hw hin, ?_⟩
    have hlt := Nat.mod_lt w.offset (show 0 < BLOCK_SIZE by decide)
    have hdiv := Nat.div_add_mod w.offset BLOCK_SIZE
    have hedge : w.offset + (BLOCK_SIZE - w.offset % BLOCK_SIZE) = BLOCK_SIZE * (w.offset / BLOCK_SIZE + 1) := by
      rw [Nat.mul_add, Nat.mul_one]
      omega
    rw [List.length_replicate, hedge, Nat.mul_mod_right]

section

variable [Zlib] {b : BloomSection} {w w' : Writer Status}

theorem header_valid (p : Payload) : (ofPayload p).header.validate = .ok () := by
  unfold ofPayload Header.validate
  rfl

/-- At a block edge the section is appended. -/
theorem writeAligned_apply {p : Payload} (hv : p.validate = .ok ()) (hw : w.Synced)
    (hedge : w.offset % BLOCK_SIZE = 0) : writeAligned (ofPayload p) w = append (encode (ofPayload p)) w := by
  have hlen := length_encode (ofPayload p)
  have hbody : AppendsFitting BLOCK_SIZE (writeAligned (ofPayload p)) (encode (ofPayload p)) :=
    fitsHere_fitting hlen.ge ((Header.write_fitting (header_valid p)).bind (Payload.write_fitting hv))
  refine hbody w hw (.inr ?_)
  rw [hlen, hedge]
  decide

/-- A finished write put the section behind the alignment. -/
theorem write_ok {out : BloomSection} {bloomOffset : Nat} (hw : w.Synced)
    (h : write b w = (.ok (out, bloomOffset), w')) :
    b.payload.validate = .ok () ∧ out = ofPayload b.payload ∧ bloomOffset % BLOCK_SIZE = 0 ∧
      ∃ d, w'.bytes = w.bytes ++ (d ++ encode out) ∧ bloomOffset = w.bytes.length + d.length := by
  unfold write at h
  rw [bind_ok (validateCursor_apply hw)] at h
  obtain ⟨_, w₁, hcheck, h⟩ := bind_eq_ok h
  cases hv : b.payload.validate with
  | error e =>
    rw [hv] at hcheck
    cases hcheck
  | ok _ =>
    rw [hv] at hcheck
    cases hcheck
    obtain ⟨_, w₁, halign, h⟩ := bind_eq_ok h
    obtain ⟨d, hd, hedge⟩ := align_append hw
    rw [hd] at halign
    have hw₁ : w₁.Synced := by
      have hs := append_synced d hw
      rw [halign] at hs
      exact hs
    have hbytes := append_ok_bytes halign
    have hoffset : w₁.offset = w.offset + d.length := by
      rw [hw₁, hbytes, hw, List.length_append]
    rw [bind_ok (get_apply w₁), bind_apply, writeAligned_apply hv hw₁ (by rw [hoffset]; exact hedge)] at h
    cases happ : append (encode (ofPayload b.payload)) w₁ with
    | mk r w₂ =>
      rw [happ] at h
      cases r with
      | err e => cases h
      | crash => cases h
      | ok u =>
        cases h
        have hbytes' := append_ok_bytes happ
        refine ⟨rfl, rfl, by rw [hoffset]; exact hedge, d, ?_, ?_⟩
        · rw [hbytes', hbytes, List.append_assoc]
        · rw [hoffset, hw]

/-- Without a fault a valid section is written. -/
theorem write_free (hv : b.payload.validate = .ok ()) (hw : w.Synced) (hr : w.room = none) :
    ∃ bloomOffset w', write b w = (.ok (ofPayload b.payload, bloomOffset), w') := by
  obtain ⟨d, hd, hedge⟩ := align_append hw
  have halign : alignToBlockBoundary BLOCK_SIZE w = (.ok (), w.put d none) := hd.trans (append_free hr)
  have hbody := writeAligned_apply hv (hw.put d none) hedge
  rw [append_free (Writer.put_room ..)] at hbody
  unfold write
  rw [bind_ok (validateCursor_apply hw), hv, bind_ok (lift_ok () w), bind_ok halign, bind_ok (get_apply _),
    bind_ok hbody]
  exact ⟨_, _, rfl⟩

/-- A section that stands at a block edge of a file is loaded. -/
theorem load_encode {p : Payload} (hv : p.validate = .ok ()) {file : ReadableFile} (hf : file.Sound) {bloomOffset : Nat}
    (hedge : bloomOffset % BLOCK_SIZE = 0) {d rest : List UInt8} (hlen : bloomOffset = d.length)
    (hbytes : file.bytes = d ++ (encode (ofPayload p) ++ rest)) (offset : Nat) :
    load bloomOffset file offset = .ok (ofPayload p, bloomOffset + diskSize) := by
  have hsize := length_encode (ofPayload p)
  have hat : At file.bytes bloomOffset (encode (ofPayload p)) := by
    rw [hbytes, hlen]
    unfold At
    rw [List.drop_left]
    exact List.prefix_append _ _
  have hhfit : (ofPayload p).header.encode.length ≤ BLOCK_SIZE - bloomOffset % BLOCK_SIZE := by
    rw [hedge, Header.length_encode]
    decide
  have hpfit : p.encode.length ≤ BLOCK_SIZE - (bloomOffset + (ofPayload p).header.encode.length) % BLOCK_SIZE := by
    have hwhole : diskSize ≤ BLOCK_SIZE - bloomOffset % BLOCK_SIZE := by
      rw [hedge]
      decide
    rw [Header.length_encode, Payload.length_encode]
    exact fits_part hwhole (by decide) (Nat.le_refl _)
  have hheader := Header.decodes (header_valid p) file bloomOffset hf (.inr hhfit) hat.left
  have hpayload := Payload.decodes p file _ hf (.inr hpfit) hat.right
  have hrange : canReadRange bloomOffset diskSize file.bytes.length = .ok () := by
    unfold canReadRange
    rw [hbytes, List.length_append, List.length_append, hsize, ← hlen, if_neg (by omega), if_neg (by omega)]
  unfold load
  rw [if_neg (not_not.mpr hedge), hf.getFileSize, ok_bind, hrange, ok_bind, hheader, ok_bind]
  dsimp only
  rw [hpayload, ok_bind]
  dsimp only
  have hcrc : p.calculateCrc32 = (ofPayload p).header.crc32 := rfl
  rw [if_neg (not_not.mpr hcrc), hv, ok_bind, Header.length_encode, Payload.length_encode, Nat.add_assoc]
  rfl

/-- The loops of `rebuild` add the keys of all records. -/
theorem rebuild_eq (blocks : List (List DataSection.Payload)) :
    rebuild blocks = (Payload.blank.addKeys (blocks.flatten.map DataSection.Payload.key)).map ofPayload := by
  have hflat : ∀ p : Payload,
      blocks.foldlM (fun (p : Payload) block => block.foldlM (fun (p : Payload) r => p.addKey r.key.bytes) p) p =
        p.addKeys (blocks.flatten.map DataSection.Payload.key) := by
    intro p
    induction blocks generalizing p with
    | nil => rfl
    | cons block blocks ih =>
      unfold Payload.addKeys
      rw [List.foldlM_cons, List.flatten_cons, List.map_append, List.foldlM_append, List.foldlM_map]
      exact congrArg _ (funext ih)
  unfold rebuild
  rw [hflat]
  cases Payload.blank.addKeys (blocks.flatten.map DataSection.Payload.key) with
  | error e => rfl
  | ok p => rfl

theorem exists_rebuild {blocks : List (List DataSection.Payload)} (hcount : blocks.flatten.length < 2 ^ 32) :
    ∃ b, rebuild blocks = .ok b := by
  rw [rebuild_eq]
  rcases Payload.addKeys_spec (blocks.flatten.map DataSection.Payload.key) Payload.validate_blank with
    ⟨-, p, hp, -⟩ | ⟨hle, -⟩
  · rw [hp]
    exact ⟨_, rfl⟩
  · rw [List.length_map] at hle
    have hzero : Payload.blank.keyCount.toNat = 0 := rfl
    omega

/-- Rebuilding from any data blocks, unless they hold more keys than can be counted, gives a filter that
contains every key; it can be written, and what was written is loaded as the same section. -/
theorem rebuild_round_trip (blocks : List (List DataSection.Payload)) :
    match rebuild blocks with
    | .error e => e.code = .dataTypeOverflow ∧ 2 ^ 32 ≤ blocks.flatten.length
    | .ok b =>
      (∀ r ∈ blocks.flatten, b.mayContain r.key.bytes = true) ∧
      (∀ w : Writer Status, w.Synced → w.room = none → ∃ out w', write b w = (.ok out, w')) ∧
      ∀ (w : Writer Status), w.Synced → ∀ written bloomOffset w', write b w = (.ok (written, bloomOffset), w') →
        written = b ∧ ∀ (file : ReadableFile) (rest : List UInt8) (offset : Nat), file.Sound →
          file.bytes = w'.bytes ++ rest →
          ∃ loaded offset', load bloomOffset file offset = .ok (loaded, offset') ∧ loaded = written ∧
            ∀ r ∈ blocks.flatten, loaded.mayContain r.key.bytes = true := by
  rw [rebuild_eq]
  rcases Payload.addKeys_spec (blocks.flatten.map DataSection.Payload.key) Payload.validate_blank with
    ⟨-, p, hp, hv, hall, -⟩ | ⟨hle, herr⟩
  · have hkeys : ∀ r ∈ blocks.flatten, (ofPayload p).mayContain r.key.bytes = true :=
      fun r hr => (hall r.key (List.mem_map_of_mem hr)).mayContain
    rw [hp]
    refine ⟨hkeys, ?_, ?_⟩
    · intro w hw hr
      obtain ⟨bloomOffset, w', h⟩ := write_free (b := ofPayload p) hv hw hr
      exact ⟨_, w', h⟩
    · intro w hw written bloomOffset w' h
      obtain ⟨-, rfl, hedge, d, hbytes, hoffset⟩ := write_ok hw h
      refine ⟨rfl, ?_⟩
      intro file rest offset hf hfile
      rw [hbytes, ← List.append_assoc, List.append_assoc] at hfile
      have hload := load_encode hv hf hedge (by rw [hoffset, List.length_append]) hfile offset
      exact ⟨_, _, hload, rfl, hkeys⟩
  · rw [herr]
    refine ⟨rfl, ?_⟩
    rw [List.length_map] at hle
    have hzero : Payload.blank.keyCount.toNat = 0 := rfl
    show 2 ^ 32 ≤ blocks.flatten.length
    omega

end

end BloomSection

end Kvdb
