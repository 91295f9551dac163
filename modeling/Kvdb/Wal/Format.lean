import Kvdb.Utils.BlockIO
import Kvdb.Utils.Crc32
import Kvdb.Utils.Record

/-!
# WAL file format

The file header, the fragments and the encoding of a logical record
(`core/engine/wal.cpp`), with their readers and writers.  A fragment is a
22-byte header and a payload that together lie in one 4096-byte block:

    crc32 | header_size | fragment_type | type | seq_num | fragment_size | payload
-/

namespace Kvdb

open Faulty Bytes

def WAL_FILE_MAGIC : UInt32 := 0x4B565741
def WAL_VERSION : UInt32 := 1
def WAL_FILE_BLOCK_SIZE : Nat := 4 * 1024

variable [Zlib]

/-- The cursor check of `wal.cpp`, with its own message. -/
def checkWalOffset : WriterM Status Unit := do
  let w ← Faulty.get
  ensure (w.bytes.length == w.offset)
    ⟨.invalidOffset, "WAL tracked offset " ++ toString w.offset ++ " differs from writable-file cursor "
      ++ toString w.bytes.length⟩

/-! ## File header -/

structure WALFileHeader where
  magic : UInt32
  version : UInt32
  headerSize : UInt32
  walId : UInt64
  startSeq : UInt64
  blockSize : UInt32
  reserved : UInt32
  headerCrc32 : UInt32
deriving DecidableEq

namespace WALFileHeader

def diskSize : Nat := 40

/-- The fields below the checksum, in file order. -/
def fields (h : WALFileHeader) : List (List UInt8) :=
  [u32Bytes h.magic, u32Bytes h.version, u32Bytes h.headerSize, u64Bytes h.walId, u64Bytes h.startSeq,
    u32Bytes h.blockSize, u32Bytes h.reserved]

def computeCrc32 (h : WALFileHeader) : UInt32 := crc32Fields h.fields

/-- The constructor from an id and a start sequence. -/
def create (walId : UInt32) (startSeq : UInt64) : WALFileHeader :=
  let h : WALFileHeader :=
    { magic := WAL_FILE_MAGIC
      version := WAL_VERSION
      headerSize := UInt32.ofNat diskSize
      walId := walId.toUInt64
      startSeq
      blockSize := UInt32.ofNat WAL_FILE_BLOCK_SIZE
      reserved := 0
      headerCrc32 := 0 }
  { h with headerCrc32 := h.computeCrc32 }

def selfCheck (h : WALFileHeader) : Bool :=
  h.magic == WAL_FILE_MAGIC && h.version == WAL_VERSION && h.headerSize == UInt32.ofNat diskSize &&
    h.blockSize == UInt32.ofNat WAL_FILE_BLOCK_SIZE && h.reserved == 0 && h.headerCrc32 == h.computeCrc32

def write (h : WALFileHeader) : WriterM Status Unit := do
  ensure h.selfCheck ⟨.invalidHeader, "refusing to write an invalid WAL file header"⟩
  checkWalOffset
  ensureFitsInBlock diskSize WAL_FILE_BLOCK_SIZE
  writeU32Le h.magic WAL_FILE_BLOCK_SIZE
  writeU32Le h.version WAL_FILE_BLOCK_SIZE
  writeU32Le h.headerSize WAL_FILE_BLOCK_SIZE
  writeU64Le h.walId WAL_FILE_BLOCK_SIZE
  writeU64Le h.startSeq WAL_FILE_BLOCK_SIZE
  writeU32Le h.blockSize WAL_FILE_BLOCK_SIZE
  writeU32Le h.reserved WAL_FILE_BLOCK_SIZE
  writeU32Le h.headerCrc32 WAL_FILE_BLOCK_SIZE
  checkWalOffset

/-- The eight reads of `WALFileHeader::load`. -/
def readFields : FileReader WALFileHeader := do
  let magic ← readU32Le WAL_FILE_BLOCK_SIZE
  let version ← readU32Le WAL_FILE_BLOCK_SIZE
  let headerSize ← readU32Le WAL_FILE_BLOCK_SIZE
  let walId ← readU64Le WAL_FILE_BLOCK_SIZE
  let startSeq ← readU64Le WAL_FILE_BLOCK_SIZE
  let blockSize ← readU32Le WAL_FILE_BLOCK_SIZE
  let reserved ← readU32Le WAL_FILE_BLOCK_SIZE
  let headerCrc32 ← readU32Le WAL_FILE_BLOCK_SIZE
  pure ⟨magic, version, headerSize, walId, startSeq, blockSize, reserved, headerCrc32⟩

/-- The checks of `WALFileHeader::load`, in its order. -/
def validate (h : WALFileHeader) (expectedWalId : UInt32) : Except Status Unit :=
  if h.magic ≠ WAL_FILE_MAGIC then .error ⟨.badMagic, "invalid WAL file magic"⟩
  else if h.version ≠ WAL_VERSION then
    .error ⟨.unsupportedVersion, "unsupported WAL version " ++ toString h.version⟩
  else if h.headerSize ≠ UInt32.ofNat diskSize then
    .error ⟨.invalidHeader, "WAL header_size does not match the supported layout"⟩
  else if h.walId ≠ expectedWalId.toUInt64 then
    .error ⟨.invalidHeader, "WAL id mismatch: expected " ++ toString expectedWalId ++ ", found "
      ++ toString h.walId⟩
  else if h.blockSize ≠ UInt32.ofNat WAL_FILE_BLOCK_SIZE then
    .error ⟨.unsupportedBlockSize, "unsupported WAL block size " ++ toString h.blockSize⟩
  else if h.reserved ≠ 0 then .error ⟨.invalidHeader, "WAL reserved header field must be zero"⟩
  else if h.headerCrc32 ≠ h.computeCrc32 then
    .error ⟨.checksumMismatch, "WAL file-header CRC mismatch"⟩
  else .ok ()

/-- `WALFileHeader::load`; `none` at the end of the file. -/
def load (expectedWalId : UInt32) : FileReader (Option WALFileHeader) := fun file offset =>
  match file.getFileSize with
  | .error e => .error e
  | .ok fileSize =>
    if offset = fileSize then .ok (none, offset)
    else if offset > fileSize then .error ⟨.invalidOffset, "WAL header offset is beyond end of file"⟩
    else
      match ensureFitsInBlockRead diskSize WAL_FILE_BLOCK_SIZE file offset with
      | .error e => .error e
      | .ok ((), start) =>
        if start > fileSize ∨ fileSize - start < diskSize then
          .error ⟨.unexpectedEOF, "WAL file ended inside its file header"⟩
        else
          match readFields file start with
          | .error e => .error e
          | .ok (h, off) =>
            match h.validate expectedWalId with
            | .error e => .error e
            | .ok () => .ok (some h, off)

end WALFileHeader

/-! ## Fragments -/

/-- `Fragment::Type`. -/
inductive FragmentType where
  | full
  | first
  | middle
  | last
deriving DecidableEq, Repr

namespace FragmentType

def toU8 : FragmentType → UInt8
  | full => 0
  | first => 1
  | middle => 2
  | last => 3

/-- The cast of a byte read back, for the four valid values. -/
def ofU8 (b : UInt8) : Option FragmentType :=
  if b = 0 then some full
  else if b = 1 then some first
  else if b = 2 then some middle
  else if b = 3 then some last
  else none

omit [Zlib] in
theorem ofU8_toU8 (t : FragmentType) : ofU8 t.toU8 = some t := by
  cases t <;> rfl

end FragmentType

/-- `Fragment::Header`. -/
structure FragmentHeader where
  fragmentCrc32 : UInt32
  headerSize : UInt32
  fragmentType : FragmentType
  type : RecType
  seqNum : UInt64
  fragmentSize : UInt32
deriving DecidableEq

structure Fragment where
  header : FragmentHeader
  payload : List UInt8
deriving DecidableEq

namespace FragmentHeader

def diskSize : Nat := 22

/-- The header's bytes in the file. -/
def bytes (h : FragmentHeader) : List UInt8 :=
  u32Bytes h.fragmentCrc32 ++ (u32Bytes h.headerSize ++ (u8Bytes h.fragmentType.toU8 ++
    (u8Bytes h.type.toU8 ++ (u64Bytes h.seqNum ++ u32Bytes h.fragmentSize))))

omit [Zlib] in
theorem length_bytes (h : FragmentHeader) : h.bytes.length = diskSize := by
  simp [bytes, diskSize]

def write (h : FragmentHeader) : WriterM Status Unit := do
  ensure (h.headerSize == UInt32.ofNat diskSize)
    ⟨.invalidHeader, "cannot write fragment with invalid header_size"⟩
  ensure h.type.isValid ⟨.invalidArgument, "cannot write invalid WAL record type"⟩
  checkWalOffset
  ensureFitsInBlock diskSize WAL_FILE_BLOCK_SIZE
  writeU32Le h.fragmentCrc32 WAL_FILE_BLOCK_SIZE
  writeU32Le h.headerSize WAL_FILE_BLOCK_SIZE
  writeU8 h.fragmentType.toU8 WAL_FILE_BLOCK_SIZE
  writeU8 h.type.toU8 WAL_FILE_BLOCK_SIZE
  writeU64Le h.seqNum WAL_FILE_BLOCK_SIZE
  writeU32Le h.fragmentSize WAL_FILE_BLOCK_SIZE

/-- `Fragment::Header::load`: the type bytes are cast once all fields are read. -/
def load : FileReader FragmentHeader := do
  ensureFitsInBlockRead diskSize WAL_FILE_BLOCK_SIZE
  let fragmentCrc32 ← readU32Le WAL_FILE_BLOCK_SIZE
  let headerSize ← readU32Le WAL_FILE_BLOCK_SIZE
  let fragmentType ← readU8 WAL_FILE_BLOCK_SIZE
  let type ← readU8 WAL_FILE_BLOCK_SIZE
  let seqNum ← readU64Le WAL_FILE_BLOCK_SIZE
  let fragmentSize ← readU32Le WAL_FILE_BLOCK_SIZE
  Reader.ensure (headerSize == UInt32.ofNat diskSize)
    ⟨.invalidHeader, "WAL fragment header_size is invalid"⟩
  match FragmentType.ofU8 fragmentType with
  | none => Reader.fail ⟨.invalidBlockType, "WAL fragment type is invalid"⟩
  | some ft =>
    match RecType.ofU8 type with
    | none => Reader.fail ⟨.corruption, "WAL fragment contains an invalid record type"⟩
    | some t => pure ⟨fragmentCrc32, headerSize, ft, t, seqNum, fragmentSize⟩

end FragmentHeader

namespace Fragment

def diskSize (f : Fragment) : Nat := FragmentHeader.diskSize + f.payload.length

/-- The fragment's bytes in the file. -/
def bytes (f : Fragment) : List UInt8 := f.header.bytes ++ f.payload

omit [Zlib] in
theorem length_bytes (f : Fragment) : f.bytes.length = f.diskSize := by
  simp [bytes, diskSize, FragmentHeader.length_bytes]

/-- What the checksum of a fragment covers. -/
def crcFields (f : Fragment) : List (List UInt8) :=
  [u32Bytes f.header.headerSize, u8Bytes f.header.fragmentType.toU8, u8Bytes f.header.type.toU8,
    u64Bytes f.header.seqNum, u32Bytes f.header.fragmentSize, f.payload]

/-- `Fragment::compute_crc32`; the fragment type is valid by its type. -/
def computeCrc32 (f : Fragment) : Except Status UInt32 :=
  if f.header.headerSize ≠ UInt32.ofNat FragmentHeader.diskSize then
    .error ⟨.invalidHeader, "fragment header_size is invalid"⟩
  else if f.header.type.isValid = false then
    .error ⟨.invalidArgument, "record type in fragment header is invalid"⟩
  else if f.header.fragmentSize.toNat ≠ f.payload.length then
    .error ⟨.invalidPayloadSize, "fragment_size does not match payload size"⟩
  else .ok (crc32Fields f.crcFields)

/-- `Fragment::Payload::write`. -/
def writePayload (payload : List UInt8) : WriterM Status Unit := do
  checkWalOffset
  ensureFitsInBlock payload.length WAL_FILE_BLOCK_SIZE
  if payload = [] then pure () else writeBytes payload WAL_FILE_BLOCK_SIZE

def write (f : Fragment) : WriterM Status Unit := do
  ensure (f.header.fragmentSize.toNat == f.payload.length)
    ⟨.invalidPayloadSize, "fragment header size and payload size differ"⟩
  ensure (decide (f.diskSize ≤ WAL_FILE_BLOCK_SIZE))
    ⟨.sizeExceedsBlockSize, "WAL fragment exceeds one block"⟩
  checkWalOffset
  ensureFitsInBlock f.diskSize WAL_FILE_BLOCK_SIZE
  f.header.write
  writePayload f.payload
  checkWalOffset

/-- `Fragment::Payload::load`. -/
def loadPayload (size : UInt32) : FileReader (List UInt8) := fun file offset =>
  match fitsInBlock offset size.toNat WAL_FILE_BLOCK_SIZE with
  | .error _ => .error ⟨.invalidPayloadSize, "WAL fragment payload crosses a block boundary"⟩
  | .ok () =>
    if size = 0 then .ok ([], offset) else readBytes size.toNat WAL_FILE_BLOCK_SIZE file offset

/-- The part of `Fragment::load` behind the padding: header, payload and checksum at `start`. -/
def loadAt (file : ReadableFile) (fileSize start : Nat) : Except Status (Option Fragment × Nat) :=
  if fileSize - start < FragmentHeader.diskSize then
    .error ⟨.unexpectedEOF, "WAL file ended inside a fragment header"⟩
  else
    match FragmentHeader.load file start with
    | .error e => .error e
    | .ok (header, off) =>
      if header.fragmentSize.toNat > WAL_FILE_BLOCK_SIZE - off % WAL_FILE_BLOCK_SIZE then
        .error ⟨.invalidPayloadSize, "WAL fragment payload crosses a block boundary"⟩
      else if header.fragmentSize.toNat > WAL_FILE_BLOCK_SIZE - FragmentHeader.diskSize then
        .error ⟨.invalidPayloadSize, "WAL fragment payload is larger than a block can hold"⟩
      else if fileSize - off < header.fragmentSize.toNat then
        .error ⟨.unexpectedEOF, "WAL file ended inside a fragment payload"⟩
      else
        match loadPayload header.fragmentSize file off with
        | .error e => .error e
        | .ok (payload, off') =>
          match computeCrc32 ⟨header, payload⟩ with
          | .error e => .error e
          | .ok expectedCrc =>
            if expectedCrc ≠ header.fragmentCrc32 then
              .error ⟨.checksumMismatch, "WAL fragment CRC mismatch at offset " ++ toString start⟩
            else .ok (some ⟨header, payload⟩, off')

/-- `Fragment::load`; `none` at the end of the file, also when only padding is left. -/
def load : FileReader (Option Fragment) := fun file offset =>
  match file.getFileSize with
  | .error e => .error e
  | .ok fileSize =>
    if offset = fileSize then .ok (none, offset)
    else if offset > fileSize then .error ⟨.invalidOffset, "WAL fragment offset is beyond end of file"⟩
    else
      match ensureFitsInBlockRead (FragmentHeader.diskSize + 1) WAL_FILE_BLOCK_SIZE file offset with
      | .error e => .error e
      | .ok ((), start) =>
        if start ≥ fileSize then .ok (none, fileSize) else loadAt file fileSize start

end Fragment

end Kvdb
