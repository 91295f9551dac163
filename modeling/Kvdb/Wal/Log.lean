import Kvdb.Wal.Format

/-!
# WAL writer and loader

`WALWriter::create`, `WALWriter::write` on an open log, and `WALLoader::load`
with its record assembler.  The loops carry a fuel argument: a write consumes at
least one payload byte a fragment, a load at least a fragment header.
-/

namespace Kvdb

open Faulty Bytes

variable [Zlib]

/-! ## Logical records -/

def kRecordPayloadPrefixSize : Nat := 8

/-- `encode_record_payload`. -/
def encodeRecordPayload (record : InternalRecord) : Except Status (List UInt8) :=
  if record.type.isValid = false then
    .error ⟨.invalidArgument, "cannot append a WAL record with an invalid record type"⟩
  else
    .ok (u32Bytes record.key.size32 ++ (u32Bytes record.value.size32 ++
      (record.key.bytes ++ record.value.bytes)))

/-- `read_u32_le` on a byte span. -/
def readU32Span (bytes : List UInt8) (position : Nat) : Except Status UInt32 :=
  if position > bytes.length ∨ bytes.length - position < 4 then
    .error ⟨.unexpectedEOF, "logical WAL record ended inside a u32 length field"⟩
  else .ok (u32Of ((bytes.drop position).take 4))

/-- `decode_record_payload`. -/
def decodeRecordPayload (payload : List UInt8) (seqNum : UInt64) (type : RecType) :
    Except Status InternalRecord :=
  if type.isValid = false then .error ⟨.corruption, "WAL logical record has an invalid record type"⟩
  else
    match readU32Span payload 0 with
    | .error e => .error e
    | .ok keySize =>
      match readU32Span payload 4 with
      | .error e => .error e
      | .ok valueSize =>
        if kRecordPayloadPrefixSize + keySize.toNat + valueSize.toNat ≠ payload.length then
          .error ⟨.invalidPayloadSize, "WAL logical payload size does not match its key/value lengths"⟩
        else
          .ok
            { key := ArenaEntry.ofTake (payload.drop 8) keySize
              value := ArenaEntry.ofTake (payload.drop (8 + keySize.toNat)) valueSize
              type
              seqNum }

/-! ## Assembler -/

/-- `LogicalRecordAssembler`. -/
structure LogicalRecordAssembler where
  active : Bool
  seqNum : UInt64
  type : RecType
  bytes : List UInt8
deriving DecidableEq

namespace LogicalRecordAssembler

/-- The state after `reset`. -/
def init : LogicalRecordAssembler := ⟨false, 0, .put, []⟩

/-- `consume`: the finished record, if the fragment ends one, and the assembler after it. -/
def consume (a : LogicalRecordAssembler) (f : Fragment) :
    Except Status (Option InternalRecord × LogicalRecordAssembler) :=
  match f.header.fragmentType with
  | .full =>
    if a.active then
      .error ⟨.corruption, "FULL fragment appeared while another logical record was incomplete"⟩
    else
      match decodeRecordPayload f.payload f.header.seqNum f.header.type with
      | .error e => .error e
      | .ok r => .ok (some r, a)
  | .first =>
    if a.active then
      .error ⟨.corruption, "FIRST fragment appeared before the previous logical record ended"⟩
    else .ok (none, ⟨true, f.header.seqNum, f.header.type, f.payload⟩)
  | ft =>
    if a.active = false then
      .error ⟨.corruption, "MIDDLE/LAST fragment appeared without a preceding FIRST fragment"⟩
    else if a.seqNum ≠ f.header.seqNum ∨ a.type ≠ f.header.type then
      .error ⟨.corruption, "fragment sequence number or record type changed inside one logical record"⟩
    else if ft = .middle then .ok (none, { a with bytes := a.bytes ++ f.payload })
    else
      match decodeRecordPayload (a.bytes ++ f.payload) a.seqNum a.type with
      | .error e => .error e
      | .ok r => .ok (some r, init)

end LogicalRecordAssembler

/-! ## Writer -/

/-- The fragment type of a piece of a record. -/
def fragmentTypeOf (first last : Bool) : FragmentType :=
  if first && last then .full else if first then .first else if last then .last else .middle

/-- The fragment of `record` with the given payload, checksum still zero. -/
def mkFragment (record : InternalRecord) (first last : Bool) (payload : List UInt8) : Fragment :=
  { header :=
      { fragmentCrc32 := 0
        headerSize := UInt32.ofNat FragmentHeader.diskSize
        fragmentType := fragmentTypeOf first last
        type := record.type
        seqNum := record.seqNum
        fragmentSize := UInt32.ofNat payload.length }
    payload }

namespace WALWriter

/-- The loop of `WALWriter::write_payload` over the bytes still to be written. -/
def writePayloadLoop (record : InternalRecord) : Nat → Bool → List UInt8 → WriterM Status Unit
  | 0, _, _ => pure ()
  | fuel + 1, first, rest =>
    if rest = [] then pure ()
    else do
      checkWalOffset
      ensureFitsInBlock (FragmentHeader.diskSize + 1) WAL_FILE_BLOCK_SIZE
      let w ← Faulty.get
      let remainingInBlock := WAL_FILE_BLOCK_SIZE - w.offset % WAL_FILE_BLOCK_SIZE
      ensure (decide (FragmentHeader.diskSize ≤ remainingInBlock))
        ⟨.invariantViolation, "WAL header alignment left too little room for a header"⟩
      let maxPayloadInFragment := remainingInBlock - FragmentHeader.diskSize
      ensure (maxPayloadInFragment != 0) ⟨.invariantViolation, "WAL fragment has no payload capacity"⟩
      let fragmentPayloadSize := min rest.length maxPayloadInFragment
      let last := fragmentPayloadSize == rest.length
      let fragment := mkFragment record first last (rest.take fragmentPayloadSize)
      let crc ← lift fragment.computeCrc32
      Fragment.write { fragment with header := { fragment.header with fragmentCrc32 := crc } }
      checkWalOffset
      writePayloadLoop record fuel false (rest.drop fragmentPayloadSize)

/-- `WALWriter::write_payload`. -/
def writePayload (byteSequence : List UInt8) (record : InternalRecord) : WriterM Status Unit := do
  ensure (!byteSequence.isEmpty) ⟨.invalidArgument, "encoded WAL logical record cannot be empty"⟩
  writePayloadLoop record byteSequence.length true byteSequence

/-- `WALWriter::write` on an open log. -/
def write (record : InternalRecord) : WriterM Status Unit := do
  checkWalOffset
  let payload ← lift (encodeRecordPayload record)
  writePayload payload record

/-- The header that `WALWriter::create` writes into the new, empty file. -/
def create (walId : UInt32) (startSeq : UInt64) : WriterM Status Unit :=
  (WALFileHeader.create walId startSeq).write

end WALWriter

/-! ## Loader -/

/-- `is_recoverable_tail_error`. -/
def isRecoverableTailError (code : StatusCode) : Bool := code == .unexpectedEOF

/-- `is_corruption_error`. -/
def isCorruptionError : StatusCode → Bool
  | .checksumMismatch => true
  | .corruption => true
  | .badMagic => true
  | .unsupportedVersion => true
  | .unsupportedBlockSize => true
  | .invalidHeader => true
  | .invalidPayloadSize => true
  | .invalidBlockType => true
  | .invalidAlignment => true
  | .offsetOverlap => true
  | _ => false

namespace WALLoader

structure LoadResult where
  records : List InternalRecord
  header : Option WALFileHeader
  ok : Bool
  hadTornTail : Bool
  hadCorruption : Bool
  error : String
deriving DecidableEq

/-- What the loop of `WALLoader::load` carries. -/
structure State where
  offset : Nat
  lastGoodOffset : Nat
  assembler : LogicalRecordAssembler
  records : List InternalRecord

/-- The loop of `WALLoader::load`: the result and the offset it leaves. -/
def loadLoop (file : ReadableFile) (header : WALFileHeader) : Nat → State → Except Status LoadResult × Nat
  | 0, s => (.error ⟨.internalError, "WAL loader out of fuel"⟩, s.lastGoodOffset)
  | fuel + 1, s =>
    match Fragment.load file s.offset with
    | .error e =>
      if isRecoverableTailError e.code then
        (.ok ⟨s.records, some header, true, true, false, e.message⟩, s.lastGoodOffset)
      else if isCorruptionError e.code then
        (.ok ⟨s.records, some header, false, false, true, e.message⟩, s.lastGoodOffset)
      else (.error e, s.lastGoodOffset)
    | .ok (none, offset) =>
      if s.assembler.active then
        (.ok ⟨s.records, some header, true, true, false,
          "WAL ended before the LAST fragment of a logical record"⟩, s.lastGoodOffset)
      else (.ok ⟨s.records, some header, true, false, false, ""⟩, offset)
    | .ok (some f, offset) =>
      match s.assembler.consume f with
      | .error e => (.ok ⟨s.records, some header, false, false, true, e.message⟩, s.lastGoodOffset)
      | .ok (none, a) => loadLoop file header fuel { s with offset, assembler := a }
      | .ok (some r, a) => loadLoop file header fuel ⟨offset, offset, a, s.records ++ [r]⟩

/-- `WALLoader::load` from the offset 0 of an open file. -/
def load (file : ReadableFile) (expectedWalId : UInt32) : Except Status LoadResult × Nat :=
  match WALFileHeader.load expectedWalId file 0 with
  | .error e => (.error e, 0)
  | .ok (none, offset) => (.error ⟨.unexpectedEOF, "WAL file is empty and has no header"⟩, offset)
  | .ok (some header, offset) =>
    loadLoop file header (file.bytes.length + 1) ⟨offset, offset, .init, []⟩

end WALLoader

end Kvdb
