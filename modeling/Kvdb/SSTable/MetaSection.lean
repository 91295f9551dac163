import Kvdb.SSTable.DataWriting

/-!
# The metadata of a table

`core/sstable_entities/meta_section`: the counts, the bounds of the sequence numbers
and keys and the size of the data blocks.  `rebuild` derives them from the blocks,
and checks them against the index; a section that validates is written into one
block (`emits_write`).
-/

namespace Kvdb

open Faulty Bytes

namespace MetaSection

/-- `MetaSection::Header`, with the byte of its type. -/
structure Header where
  type : UInt8
  payloadSize : UInt32
  crc32 : UInt32
deriving DecidableEq

def Header.diskSize : Nat := 9

/-- `MetaSection::Payload`. -/
structure Payload where
  recordCount : UInt64
  tombstoneCount : UInt64
  minSeqNum : UInt64
  maxSeqNum : UInt64
  minKey : ArenaEntry
  maxKey : ArenaEntry
  dataBlockCount : UInt64
  dataBytes : UInt64
deriving DecidableEq

namespace Payload

def fixedDiskSize : Nat := 56

def diskSize (p : Payload) : Nat := fixedDiskSize + p.minKey.size + p.maxKey.size

/-- The payload of an empty table. -/
def zero : Payload := ⟨0, 0, 0, 0, .empty, .empty, 0, 0⟩

/-- The part of `validate` about the data blocks. -/
def validateDataBytes (p : Payload) : Except Status Unit :=
  let minimumBlockBytes := DataSection.Header.diskSize + DataSection.Payload.fixedPartDiskSize
  match checkedMul p.dataBlockCount.toNat minimumBlockBytes, checkedMul p.dataBlockCount.toNat BLOCK_SIZE with
  | some minimumDataBytes, some maximumDataBytes =>
    if p.dataBytes.toNat < minimumDataBytes ∨ p.dataBytes.toNat > maximumDataBytes then
      .error ⟨.invalidPayloadSize, "meta data-byte count is impossible for its data-block count"⟩
    else .ok ()
  | _, _ => .error ⟨.dataTypeOverflow, "meta data-byte bounds overflow uint64_t"⟩

/-- The part of `validate` about a table that is not empty. -/
def validateNonempty (p : Payload) : Except Status Unit :=
  if p.dataBlockCount = 0 then .error ⟨.invalidPayloadSize, "nonempty meta payload has zero data blocks"⟩
  else if p.dataBlockCount > p.recordCount then
    .error ⟨.invalidPayloadSize, "meta data-block count exceeds record count"⟩
  else if p.minSeqNum > p.maxSeqNum then
    .error ⟨.invalidPayloadSize, "meta minimum sequence number exceeds maximum sequence number"⟩
  else if compareKeys p.minKey.bytes p.maxKey.bytes = .gt then
    .error ⟨.invalidPayloadSize, "meta minimum key is greater than maximum key"⟩
  else p.validateDataBytes

/-- `Payload::validate`. -/
def validate (p : Payload) : Except Status Unit :=
  if p.diskSize > BLOCK_SIZE - Header.diskSize then
    .error ⟨.invalidPayloadSize, "meta payload and both boundary keys do not fit in one block"⟩
  else if p.tombstoneCount > p.recordCount then
    .error ⟨.invalidPayloadSize, "meta tombstone count exceeds record count"⟩
  else if p.recordCount = 0 then
    if p.tombstoneCount ≠ 0 ∨ p.minSeqNum ≠ 0 ∨ p.maxSeqNum ≠ 0 ∨ p.minKey.size ≠ 0 ∨
      p.maxKey.size ≠ 0 ∨
        p.dataBlockCount ≠ 0 ∨ p.dataBytes ≠ 0 then
      .error ⟨.invalidPayloadSize, "empty meta payload is not in canonical zero state"⟩
    else .ok ()
  else p.validateNonempty

/-- The fields in file order. -/
def fields (p : Payload) : List (List UInt8) :=
  [u64Bytes p.recordCount, u64Bytes p.tombstoneCount, u64Bytes p.minSeqNum, u64Bytes p.maxSeqNum,
    u32Bytes p.minKey.size32, u32Bytes p.maxKey.size32, u64Bytes p.dataBlockCount, u64Bytes p.dataBytes,
    p.minKey.bytes, p.maxKey.bytes]

def encode (p : Payload) : List UInt8 :=
  u64Bytes p.recordCount ++ (u64Bytes p.tombstoneCount ++ (u64Bytes p.minSeqNum ++ (u64Bytes p.maxSeqNum ++
    (u32Bytes p.minKey.size32 ++ (u32Bytes p.maxKey.size32 ++ (u64Bytes p.dataBlockCount ++ (u64Bytes p.dataBytes ++
    (p.minKey.bytes ++ p.maxKey.bytes))))))))

@[simp] theorem length_encode (p : Payload) : p.encode.length = p.diskSize := by
  simp only [encode, List.length_append, length_u64Bytes, length_u32Bytes, diskSize, fixedDiskSize, ArenaEntry.size]
  omega

/-- `Payload::calculate_crc32`. -/
def calculateCrc32 [Zlib] (p : Payload) : UInt32 := crc32Fields p.fields

/-- `Payload::write`. -/
def write (p : Payload) : WriterM Status Unit := do
  lift p.validate
  checkCursor "meta payload tracked offset does not match file cursor"
  BloomSection.fitsHere p.diskSize
  writeU64Le p.recordCount BLOCK_SIZE
  writeU64Le p.tombstoneCount BLOCK_SIZE
  writeU64Le p.minSeqNum BLOCK_SIZE
  writeU64Le p.maxSeqNum BLOCK_SIZE
  writeU32Le p.minKey.size32 BLOCK_SIZE
  writeU32Le p.maxKey.size32 BLOCK_SIZE
  writeU64Le p.dataBlockCount BLOCK_SIZE
  writeU64Le p.dataBytes BLOCK_SIZE
  writeBytes p.minKey.bytes BLOCK_SIZE
  writeBytes p.maxKey.bytes BLOCK_SIZE

end Payload

namespace Header

def validate (h : Header) : Except Status Unit :=
  if h.type ≠ BlockType.metadata.toU8 then .error ⟨.invalidBlockType, "meta header has an invalid block type"⟩
  else if h.payloadSize.toNat < Payload.fixedDiskSize then
    .error ⟨.invalidPayloadSize, "meta payload is smaller than its fixed fields"⟩
  else if h.payloadSize.toNat > BLOCK_SIZE - diskSize then
    .error ⟨.invalidPayloadSize, "meta payload does not fit beside its header in one block"⟩
  else .ok ()

def encode (h : Header) : List UInt8 := u8Bytes h.type ++ (u32Bytes h.payloadSize ++ u32Bytes h.crc32)

@[simp] theorem length_encode (h : Header) : h.encode.length = diskSize := by simp [encode, diskSize]

def write (h : Header) : WriterM Status Unit := do
  lift h.validate
  checkCursor "meta header tracked offset does not match file cursor"
  BloomSection.fitsHere diskSize
  writeU8 h.type BLOCK_SIZE
  writeU32Le h.payloadSize BLOCK_SIZE
  writeU32Le h.crc32 BLOCK_SIZE

end Header

/-! ## Agreement with the index -/

/-- `observe`: the bounds of the keys seen so far. -/
def observe (bounds : Option (ArenaEntry × ArenaEntry)) (key : ArenaEntry) : Option (ArenaEntry × ArenaEntry) :=
  match bounds with
  | none => some (key, key)
  | some (observedMin, observedMax) =>
    some (if compareKeys key.bytes observedMin.bytes = .lt then key else observedMin,
      if compareKeys key.bytes observedMax.bytes = .gt then key else observedMax)

/-- The bounds of the keys in the index. -/
def observedBounds (index : IndexSection) : Option (ArenaEntry × ArenaEntry) :=
  index.payloads.foldl (fun bounds entry => observe (observe bounds entry.firstKey) entry.lastKey) none

/-- `validate_index_consistency`. -/
def validateIndexConsistency (p : Payload) (index : IndexSection) : Except Status Unit :=
  if p.dataBlockCount.toNat ≠ index.payloads.length then
    .error ⟨.invariantViolation, "meta data-block count does not match index entry count"⟩
  else if p.recordCount = 0 then
    if index.payloads ≠ [] then
      .error ⟨.invariantViolation, "empty metadata cannot reference nonempty index entries"⟩
    else .ok ()
  else
    match observedBounds index with
    | none => .error ⟨.invariantViolation, "nonempty metadata requires at least one index entry"⟩
    | some (observedMin, observedMax) =>
      if compareKeys p.minKey.bytes observedMin.bytes ≠ .eq then
        .error ⟨.invariantViolation, "meta minimum key does not match index key boundaries"⟩
      else if compareKeys p.maxKey.bytes observedMax.bytes ≠ .eq then
        .error ⟨.invariantViolation, "meta maximum key does not match index key boundaries"⟩
      else .ok ()

end MetaSection

structure MetaSection where
  header : MetaSection.Header
  payload : MetaSection.Payload
deriving DecidableEq

namespace MetaSection

/-- `MetaSection::disk_size`. -/
def diskSize (s : MetaSection) : Nat := Header.diskSize + s.payload.diskSize

/-! ## Gathering -/

/-- What `rebuild` has gathered so far, and whether it saw a record. -/
structure Staged where
  payload : Payload
  haveRecord : Bool
deriving DecidableEq

/-- The counts with one more record. -/
def countRecord (p : Payload) (r : DataSection.Payload) : Except Status Payload :=
  if p.recordCount.toNat = 2 ^ 64 - 1 then .error ⟨.dataTypeOverflow, "meta record count overflowed u64"⟩
  else if r.type = RecType.tombstone.toU8 then
    if p.tombstoneCount.toNat = 2 ^ 64 - 1 then .error ⟨.dataTypeOverflow, "meta tombstone count overflowed u64"⟩
    else .ok { p with recordCount := p.recordCount + 1, tombstoneCount := p.tombstoneCount + 1 }
  else .ok { p with recordCount := p.recordCount + 1 }

/-- The bounds with one more record. -/
def boundRecord (s : Staged) (r : DataSection.Payload) : Payload :=
  if !s.haveRecord then
    { s.payload with minSeqNum := r.seqNum, maxSeqNum := r.seqNum, minKey := r.key, maxKey := r.key }
  else
    { s.payload with
      minSeqNum := min s.payload.minSeqNum r.seqNum
      maxSeqNum := max s.payload.maxSeqNum r.seqNum
      minKey := if compareKeys r.key.bytes s.payload.minKey.bytes = .lt then r.key else s.payload.minKey
      maxKey := if compareKeys r.key.bytes s.payload.maxKey.bytes = .gt then r.key else s.payload.maxKey }

/-- The loop over the records of a block. -/
def addRecord (s : Staged) (r : DataSection.Payload) : Except Status Staged :=
  if !DataSection.Payload.typeIsValid r.type then
    .error ⟨.invalidArgument, "cannot rebuild meta from an invalid record type"⟩
  else if r.flags ≠ 0 ∨ r.reserved ≠ 0 then
    .error ⟨.invalidArgument, "version-1 data records require zero flags and reserved fields"⟩
  else do
    let payload ← countRecord s.payload r
    pure ⟨boundRecord { s with payload } r, true⟩

/-- The loop over the blocks. -/
def addBlock (s : Staged) (block : List DataSection.Payload) : Except Status Staged :=
  if block = [] then .error ⟨.invalidState, "cannot rebuild meta from an empty data block"⟩
  else if DataSection.blockDiskSize block > BLOCK_SIZE then
    .error ⟨.invalidPayloadSize, "cannot rebuild meta from an oversized data block"⟩
  else
    match checkedAdd s.payload.dataBytes.toNat (DataSection.blockDiskSize block) with
    | none => .error ⟨.dataTypeOverflow, "meta data-byte count overflowed u64"⟩
    | some dataBytes =>
      block.foldlM addRecord { s with payload := { s.payload with dataBytes := UInt64.ofNat dataBytes } }

/-- What `rebuild` starts from. -/
def Staged.start (dataBlockCount : Nat) : Staged :=
  ⟨{ Payload.zero with dataBlockCount := UInt64.ofNat dataBlockCount }, false⟩

section

variable [Zlib]

/-- The header of a payload. -/
def derivedHeader (p : Payload) : Header := ⟨BlockType.metadata.toU8, UInt32.ofNat p.diskSize, p.calculateCrc32⟩

/-- `build_header`. -/
def buildHeader (p : Payload) : Except Status Header := do
  p.validate
  if p.diskSize > 2 ^ 32 - 1 then .error ⟨.dataTypeOverflow, "meta payload size cannot be represented by u32"⟩
  else do
    (derivedHeader p).validate
    pure (derivedHeader p)

/-- `MetaSection::rebuild`. -/
def rebuild (blocks : List (List DataSection.Payload)) (index : IndexSection) : Except Status MetaSection :=
  if blocks.length ≠ index.payloads.length then
    .error ⟨.invariantViolation, "cannot rebuild meta: data-block and index-entry counts differ"⟩
  else if blocks.length > 2 ^ 64 - 1 then
    .error ⟨.dataTypeOverflow, "data-block count cannot be represented by u64"⟩
  else do
    let gathered ← blocks.foldlM addBlock (Staged.start blocks.length)
    let staged := if gathered.haveRecord then gathered.payload else Payload.zero
    staged.validate
    validateIndexConsistency staged index
    let header ← buildHeader staged
    pure ⟨header, staged⟩

/-- `MetaSection::write`: the section with its header, and its offset. -/
def write (s : MetaSection) : WriterM Status (MetaSection × Nat) := do
  let stagedHeader ← lift (buildHeader s.payload)
  checkCursor "meta section tracked offset does not match file cursor"
  alignToBlockBoundary BLOCK_SIZE
  let w ← Faulty.get
  stagedHeader.write
  s.payload.write
  pure (⟨stagedHeader, s.payload⟩, w.offset)

end

/-! ## Writing -/

theorem Payload.validate_size {p : Payload} (h : p.validate = .ok ()) :
    p.diskSize ≤ BLOCK_SIZE - Header.diskSize := by
  unfold Payload.validate at h
  split at h
  · cases h
  · omega

theorem Header.write_fitting {h : Header} (hv : h.validate = .ok ()) : AppendsFitting BLOCK_SIZE h.write h.encode :=
  lift_fitting hv ((checkCursor_fitting _).then (BloomSection.fitsHere_fitting h.length_encode.ge
    ((writeU8_fitting _).bind ((writeU32_fitting _).bind (writeU32_fitting _)))))

theorem Payload.write_fitting {p : Payload} (h : p.validate = .ok ()) : AppendsFitting BLOCK_SIZE p.write p.encode := by
  refine lift_fitting h ((checkCursor_fitting _).then (BloomSection.fitsHere_fitting p.length_encode.ge ?_))
  refine (writeU64_fitting _).bind ((writeU64_fitting _).bind
    ((writeU64_fitting _).bind ((writeU64_fitting _).bind ?_)))
  refine (writeU32_fitting _).bind ((writeU32_fitting _).bind
    ((writeU64_fitting _).bind ((writeU64_fitting _).bind ?_)))
  exact (writeBytes_fitting _).bind (writeBytes_fitting _)

section

variable [Zlib]

theorem derivedHeader_size {p : Payload} (h : p.validate = .ok ()) :
    (derivedHeader p).payloadSize.toNat = p.diskSize := by
  have hsize := Payload.validate_size h
  have hblock : BLOCK_SIZE = 4096 := rfl
  show (UInt32.ofNat _).toNat = _
  rw [UInt32.toNat_ofNat', Nat.mod_eq_of_lt (by omega)]

theorem derivedHeader_valid {p : Payload} (h : p.validate = .ok ()) : (derivedHeader p).validate = .ok () := by
  have hsize := Payload.validate_size h
  have htype : (derivedHeader p).type = BlockType.metadata.toU8 := rfl
  have hfixed : Payload.fixedDiskSize ≤ p.diskSize := by
    rw [Payload.diskSize]
    omega
  unfold Header.validate
  rw [if_neg (not_not.mpr htype), derivedHeader_size h, if_neg (by omega), if_neg (by omega)]

theorem buildHeader_ok_iff (p : Payload) (h : Header) :
    buildHeader p = .ok h ↔ p.validate = .ok () ∧ h = derivedHeader p := by
  constructor
  · intro hb
    obtain ⟨_, hvalid, hb⟩ := except_bind_ok hb
    split at hb
    · cases hb
    obtain ⟨_, -, hb⟩ := except_bind_ok hb
    cases hb
    exact ⟨hvalid, rfl⟩
  · rintro ⟨hvalid, rfl⟩
    have hsize := Payload.validate_size hvalid
    have hblock : BLOCK_SIZE = 4096 := rfl
    rw [buildHeader, hvalid, ok_bind, if_neg (by omega), derivedHeader_valid hvalid, ok_bind]
    rfl

/-- The section of a payload. -/
def ofPayload (p : Payload) : MetaSection := ⟨derivedHeader p, p⟩

/-- The section as it stands in the file. -/
def encode (p : Payload) : List UInt8 := (derivedHeader p).encode ++ p.encode

theorem length_encode (p : Payload) : (encode p).length = (ofPayload p).diskSize := by
  rw [encode, List.length_append, Header.length_encode, Payload.length_encode]
  rfl

/-- A valid section is written into one block, behind the alignment. -/
theorem emits_write {s : MetaSection} (h : s.payload.validate = .ok ()) (off : Nat) :
    Emits s.write off (alignment off ++ encode s.payload) (ofPayload s.payload, aligned off) := by
  have hsize := Payload.validate_size h
  have hheader : Header.diskSize ≤ BLOCK_SIZE := by decide
  have hbody : Emits (do
      (derivedHeader s.payload).write
      s.payload.write) (aligned off) (encode s.payload) () := by
    refine ((Header.write_fitting (derivedHeader_valid h)).bind (Payload.write_fitting h)).emits_edge
      (aligned_mod off) ?_
    rw [List.length_append, Header.length_encode, Payload.length_encode]
    omega
  refine Emits.lift ((buildHeader_ok_iff _ _).mpr ⟨h, rfl⟩) ((emits_checkCursor _ off).then ?_)
  refine (emits_align off).bind (.get fun w hw ho => ?_)
  rw [show w.offset = aligned off from ho]
  exact (hbody.seq (emits_pure _ _)).of_eq (List.append_nil _)

/-- Only a valid section is written. -/
theorem write_ok {s : MetaSection} {w w' : Writer Status} {r : MetaSection × Nat} (h : s.write w = (.ok r, w')) :
    s.payload.validate = .ok () := by
  obtain ⟨_, hbuild, -⟩ := lift_bind_eq_ok h
  exact ((buildHeader_ok_iff _ _).mp hbuild).1

/-! ## Rebuilding -/

/-- A finished `rebuild`: what was gathered from the blocks is valid and agrees with the index. -/
theorem rebuild_ok {blocks : List (List DataSection.Payload)} {index : IndexSection} {s : MetaSection}
    (h : rebuild blocks index = .ok s) :
    blocks.length = index.payloads.length ∧ blocks.length < 2 ^ 64 ∧ s = ofPayload s.payload ∧
      s.payload.validate = .ok () ∧ validateIndexConsistency s.payload index = .ok () ∧
      ∃ gathered, blocks.foldlM addBlock (Staged.start blocks.length) = .ok gathered ∧
        s.payload = if gathered.haveRecord then gathered.payload else Payload.zero := by
  unfold rebuild at h
  split at h
  · cases h
  next hcount =>
  split at h
  · cases h
  next hlen =>
  obtain ⟨gathered, hgathered, h⟩ := except_bind_ok h
  obtain ⟨_, hvalid, h⟩ := except_bind_ok h
  obtain ⟨_, hindex, h⟩ := except_bind_ok h
  obtain ⟨header, hheader, h⟩ := except_bind_ok h
  obtain ⟨-, rfl⟩ := (buildHeader_ok_iff _ _).mp hheader
  cases h
  exact ⟨not_not.mp hcount, by omega, rfl, hvalid, hindex, gathered, hgathered, rfl⟩

end

end MetaSection

end Kvdb
