import Kvdb.Lib.Prog
import Kvdb.SSTable.DataSection

/-!
# Data blocks on demand

`DataSectionView` (`core/sstable_entities/data_section_view.cpp`): loading a table
reads only the block headers.  The first use of a block reads its payload, checks
the checksum and parses the records into `RecordMeta` entries, which the block
keeps; later lookups trust their offsets.

`validate`, `readRecord` and `findFirstRecord` are programs over the block, whose
validation state they change.
-/

namespace Kvdb

open Faulty Bytes

/-- `checked_add_u64`. -/
def checkedAdd (lhs rhs : Nat) : Option Nat := if lhs > 2 ^ 64 - 1 - rhs then none else some (lhs + rhs)

/-- `checked_mul_u64`. -/
def checkedMul (lhs rhs : Nat) : Option Nat :=
  if lhs ≠ 0 ∧ rhs > (2 ^ 64 - 1) / lhs then none else some (lhs * rhs)

/-- An `InternalRecord` as a block decoder makes it: the type is the byte that was read. -/
structure StoredRecord where
  key : ArenaEntry
  value : ArenaEntry
  type : UInt8
  seqNum : UInt64
deriving DecidableEq

def DataSection.Payload.record (p : DataSection.Payload) : StoredRecord := ⟨p.key, p.value, p.type, p.seqNum⟩

/-- `DataSection::Header`, field by field. -/
def DataSection.Header.readFields : FileReader DataSection.Header := do
  let type ← readU8 BLOCK_SIZE
  let payloadDiskSize ← readU32Le BLOCK_SIZE
  let crc32 ← readU32Le BLOCK_SIZE
  pure ⟨type, payloadDiskSize, crc32⟩

/-- The bytes a block has for its records. -/
def PAYLOAD_CAPACITY : Nat := BLOCK_SIZE - DataSection.Header.diskSize

namespace DataSectionView

/-- `DataSectionView::Header`. -/
structure Header where
  header : DataSection.Header
  headerOffset : Nat
  payloadOffset : Nat
  payloadEndOffset : Nat
  nextBlockOffset : Nat
deriving DecidableEq

/-- The extents behind a header that was read at `headerOffset`, and their checks. -/
def Header.bounded (header : DataSection.Header) (headerOffset payloadOffset sectionEndOffset : Nat) :
    Except Status Header :=
  match checkedAdd payloadOffset header.payloadDiskSize.toNat with
  | none => .error ⟨.offsetOutOfRange, "data block payload end overflows uint64_t"⟩
  | some payloadEndOffset =>
    match checkedAdd headerOffset BLOCK_SIZE with
    | none => .error ⟨.offsetOutOfRange, "next data block offset overflows uint64_t"⟩
    | some nextBlockOffset =>
      if payloadEndOffset > nextBlockOffset ∨ nextBlockOffset > sectionEndOffset then
        .error ⟨.offsetOverlap, "data block extends outside its physical block or declared section"⟩
      else .ok ⟨header, headerOffset, payloadOffset, payloadEndOffset, nextBlockOffset⟩

/-- The header ends inside the section. -/
def headerInSection (offset sectionEndOffset : Nat) : Bool :=
  match checkedAdd offset DataSection.Header.diskSize with
  | none => false
  | some headerEnd => decide (headerEnd ≤ sectionEndOffset)

/-- `DataSectionView::Header::load`. -/
def Header.load (sectionEndOffset : Nat) : FileReader Header := do
  let headerOffset ← Reader.offset
  Reader.ensure (headerOffset % BLOCK_SIZE == 0)
    ⟨.invalidAlignment, "data block header offset is not block aligned"⟩
  Reader.ensure (headerInSection headerOffset sectionEndOffset)
    ⟨.unexpectedEOF, "data block header lies outside the declared data section"⟩
  let header ← DataSection.Header.readFields
  Reader.ensure (header.type == BlockType.data.toU8)
    ⟨.invalidBlockType, "expected a data block while discovering DataSectionView"⟩
  Reader.ensure (decide (header.payloadDiskSize.toNat ≤ PAYLOAD_CAPACITY))
    ⟨.invalidPayloadSize, "data block payload size exceeds physical block capacity"⟩
  let payloadOffset ← Reader.offset
  Reader.lift (Header.bounded header headerOffset payloadOffset sectionEndOffset)

structure RecordMeta where
  keySize : UInt32
  valueSize : UInt32
  type : UInt8
  seqNum : UInt64
  recordOffset : Nat
  keyOffset : Nat
  valueOffset : Nat
deriving DecidableEq

def RecordMeta.diskSize (m : RecordMeta) : Nat :=
  DataSection.Payload.fixedPartDiskSize + m.keySize.toNat + m.valueSize.toNat

inductive ValidationState where
  | unvalidated
  | valid
  | corrupt
deriving DecidableEq

structure DataBlock where
  headerView : Header
  validationState : ValidationState := .unvalidated
  cachedCorruption : Option Status := none
  records : List RecordMeta := []
deriving DecidableEq

/-- `DataBlock::record_count`. -/
def DataBlock.recordCount (b : DataBlock) : Nat := if b.validationState = .valid then b.records.length else 0

/-- `DataBlock::load`: the cursor goes to the next block. -/
def DataBlock.load (sectionEndOffset : Nat) : FileReader DataBlock := fun file offset =>
  match Header.load sectionEndOffset file offset with
  | .error e => .error e
  | .ok (headerView, _) => .ok ({ headerView }, headerView.nextBlockOffset)

/-! ## Parsing a payload -/

abbrev SpanReader := Reader (List UInt8) Status

def truncatedFixed : Status := ⟨.corruption, "truncated fixed fields in data record"⟩

/-- A field of a payload in memory. -/
def spanField (size : Nat) : SpanReader (List UInt8) := fun bytes position =>
  if bytes.length - position < size then .error truncatedFixed
  else .ok ((bytes.drop position).take size, position + size)

/-- The fixed part of a record. -/
def readFixed : SpanReader DataSection.Fixed := do
  let keySize ← spanField 4
  let valueSize ← spanField 4
  let type ← spanField 1
  let flags ← spanField 4
  let reserved ← spanField 4
  let seqNum ← spanField 8
  pure ⟨u32Of keySize, u32Of valueSize, u8Of type, u32Of flags, u32Of reserved, u64Of seqNum⟩

/-- The order check against the record in front. -/
def checkOrder (previous : Option (List UInt8 × UInt64)) (key : List UInt8) (seqNum : UInt64) : Except Status Unit :=
  match previous with
  | none => .ok ()
  | some (previousKey, previousSeq) =>
    match compareKeys previousKey key with
    | .gt => .error ⟨.corruption, "data records are not ordered by ascending user key"⟩
    | .eq =>
      if seqNum ≥ previousSeq then
        .error ⟨.corruption, "equal data keys are not ordered by strictly descending sequence"⟩
      else .ok ()
    | .lt => .ok ()

/-- What a record says of itself: a known type, and no flags. -/
def checkFixed (f : DataSection.Fixed) : Except Status Unit :=
  if !DataSection.Payload.typeIsValid f.type then .error ⟨.corruption, "data record has an invalid record type"⟩
  else if f.flags ≠ 0 ∨ f.reserved ≠ 0 then
    .error ⟨.corruption, "data record flags and reserved fields must be zero in version 1"⟩
  else .ok ()

/-- The key and the value of a record, behind its fixed part; `payloadOffset` is the place of the
payload in the file. -/
def readVariable (payloadOffset recordStart : Nat) (previous : Option (List UInt8 × UInt64)) (f : DataSection.Fixed) :
    SpanReader (RecordMeta × List UInt8) := fun bytes position =>
  if f.keySize.toNat + f.valueSize.toNat > bytes.length - position then
    .error ⟨.corruption, "data record key/value lengths exceed the remaining block payload"⟩
  else
    let key := (bytes.drop position).take f.keySize.toNat
    match checkOrder previous key f.seqNum with
    | .error e => .error e
    | .ok () =>
      .ok ((⟨f.keySize, f.valueSize, f.type, f.seqNum, payloadOffset + recordStart, payloadOffset + position,
        payloadOffset + (position + f.keySize.toNat)⟩, key), position + (f.keySize.toNat + f.valueSize.toNat))

/-- One round of the loop of `validate`. -/
def parseRecord (payloadOffset : Nat) (previous : Option (List UInt8 × UInt64)) :
    SpanReader (RecordMeta × List UInt8) := fun bytes position =>
  if bytes.length - position < DataSection.Payload.fixedPartDiskSize then .error truncatedFixed
  else
    (do
      let f ← readFixed
      Reader.lift (checkFixed f)
      readVariable payloadOffset position previous f : SpanReader (RecordMeta × List UInt8)) bytes position

/-- The loop of `validate`: `previous` is the key and the sequence number of the last record. -/
def parseLoop (payloadOffset : Nat) :
    Nat → Option (List UInt8 × UInt64) → List RecordMeta → SpanReader (List RecordMeta)
  | 0, _, staged => pure staged
  | fuel + 1, previous, staged => fun bytes position =>
    if position < bytes.length then
      match parseRecord payloadOffset previous bytes position with
      | .error e => .error e
      | .ok ((m, key), next) => parseLoop payloadOffset fuel (some (key, m.seqNum)) (staged ++ [m]) bytes next
    else .ok (staged, position)

variable [Zlib]

/-- What `validate` does with the payload bytes. -/
def checkPayload (h : Header) (bytes : List UInt8) : Except Status (List RecordMeta) :=
  if computeCrc32 crc32Init bytes ≠ h.header.crc32 then
    .error ⟨.checksumMismatch, "data block payload CRC does not match its header"⟩
  else if bytes.length < DataSection.Payload.fixedPartDiskSize then
    .error ⟨.corruption, "data block payload is too small to contain one complete record"⟩
  else
    match parseLoop h.payloadOffset bytes.length none [] bytes 0 with
    | .error e => .error e
    | .ok (records, position) =>
      if records = [] ∨ position ≠ bytes.length then
        .error ⟨.corruption, "data block payload does not contain a canonical sequence of records"⟩
      else .ok records

namespace DataBlock

/-- A corruption that later calls report again. -/
def corrupted (e : Status) : Prog DataBlock Status Unit := do
  modify fun b => { b with validationState := .corrupt, cachedCorruption := some e }
  fail e

/-- `validate` of a block that has not been found valid or corrupt. -/
def validatePayload (file : ReadableFile) : Prog DataBlock Status Unit := fun b =>
  if b.headerView.header.payloadDiskSize.toNat > PAYLOAD_CAPACITY then
    corrupted ⟨.corruption, "data block payload exceeds physical block capacity"⟩ b
  else
    match readBytes b.headerView.header.payloadDiskSize.toNat BLOCK_SIZE file b.headerView.payloadOffset with
    | .error e => (.err e, b)
    | .ok (bytes, readOffset) =>
      if readOffset ≠ b.headerView.payloadEndOffset then
        (.err ⟨.invalidOffset, "data payload read did not end at the declared payload boundary"⟩, b)
      else
        match checkPayload b.headerView bytes with
        | .error e => corrupted e b
        | .ok records => (.ok (), ⟨b.headerView, .valid, none, records⟩)

/-- `DataBlock::validate`. -/
def validate (file : ReadableFile) : Prog DataBlock Status Unit := fun b =>
  match b.validationState, b.cachedCorruption with
  | .valid, _ => (.ok (), b)
  | .corrupt, some e => (.err e, b)
  | _, _ => validatePayload file b

/-- The bytes from an offset that must end at another one; none are read when there are none. -/
def readPart (size : UInt32) (offset stop : Nat) (message : String) (file : ReadableFile) :
    Except Status (List UInt8) :=
  if size.toNat > 0 then
    match readBytes size.toNat BLOCK_SIZE file offset with
    | .error e => .error e
    | .ok (bytes, readOffset) => if readOffset ≠ stop then .error ⟨.invalidOffset, message⟩ else .ok bytes
  else .ok []

/-- The record that a `RecordMeta` entry describes. -/
def readMeta (m : RecordMeta) (file : ReadableFile) : Except Status StoredRecord := do
  let key ← readPart m.keySize m.keyOffset m.valueOffset "key read did not end at the validated value offset" file
  let value ← readPart m.valueSize m.valueOffset (m.recordOffset + m.diskSize)
    "value read did not end at the validated record boundary" file
  pure ⟨.ofTake key m.keySize, .ofTake value m.valueSize, m.type, m.seqNum⟩

/-- `DataBlock::read_record`. -/
def readRecord (file : ReadableFile) (recordIndex : Nat) : Prog DataBlock Status StoredRecord := do
  validate file
  let b ← Faulty.get
  match b.records[recordIndex]? with
  | none => fail ⟨.invalidArgument, "data record index is outside the validated block"⟩
  | some m => lift (readMeta m file)

/-- `record_key`: the key of an entry in the payload that was read. -/
def recordKey (h : Header) (payload : List UInt8) (m : RecordMeta) : Except Status (List UInt8) :=
  if m.keyOffset < h.payloadOffset then
    .error ⟨.corruption, "record key offset precedes its block payload"⟩
  else if m.keyOffset - h.payloadOffset > h.header.payloadDiskSize.toNat ∨
      m.keySize.toNat > h.header.payloadDiskSize.toNat - (m.keyOffset - h.payloadOffset) then
    .error ⟨.corruption, "record key range lies outside its validated block payload"⟩
  else .ok ((payload.drop (m.keyOffset - h.payloadOffset)).take m.keySize.toNat)

/-- The loop of `find_first_record`. -/
def searchLoop (key : RecordMeta → Except Status (List UInt8)) (records : List RecordMeta) (searched : List UInt8) :
    Nat → Nat → Nat → Except Status Nat
  | 0, first, _ => .ok first
  | fuel + 1, first, last =>
    if first < last then
      match records[first + (last - first) / 2]? with
      | none => .ok first
      | some m =>
        match key m with
        | .error e => .error e
        | .ok current =>
          if compareKeys current searched = .lt then
            searchLoop key records searched fuel (first + (last - first) / 2 + 1) last
          else searchLoop key records searched fuel first (first + (last - first) / 2)
    else .ok first

/-- The search in a payload that was read. -/
def searchPayload (b : DataBlock) (payload : List UInt8) (searched : ArenaEntry) : Except Status (Option Nat) := do
  let first ← searchLoop (recordKey b.headerView payload) b.records searched.bytes b.records.length 0 b.records.length
  match b.records[first]? with
  | none => .ok none
  | some m =>
    let candidate ← recordKey b.headerView payload m
    if compareKeys candidate searched.bytes ≠ .eq then .ok none else .ok (some first)

/-- The payload for a search. -/
def readPayload (b : DataBlock) (file : ReadableFile) : Except Status (List UInt8) :=
  if b.headerView.header.payloadDiskSize.toNat > PAYLOAD_CAPACITY then
    .error ⟨.corruption, "validated data block payload exceeds physical block capacity"⟩
  else
    match readBytes b.headerView.header.payloadDiskSize.toNat BLOCK_SIZE file b.headerView.payloadOffset with
    | .error e => .error e
    | .ok (bytes, readOffset) =>
      if readOffset ≠ b.headerView.payloadEndOffset then
        .error ⟨.invalidOffset, "data payload search read ended at an unexpected offset"⟩
      else .ok bytes

/-- `DataBlock::find_first_record`. -/
def findFirstRecord (file : ReadableFile) (key : ArenaEntry) : Prog DataBlock Status (Option Nat) := do
  validate file
  let b ← Faulty.get
  let payload ← lift (readPayload b file)
  lift (searchPayload b payload key)

end DataBlock

end DataSectionView

end Kvdb
