import Kvdb.Engine.TableMeta

/-!
# Version edits

`VersionEdit` (`core/engine/manifest.cpp`): the record that the manifest appends
for one metadata transition, with its checks, checksum, writer and loader.  The
header is rebuilt by `prepare` before every write, so an edit is its payload.

The length in the header counts the fields without padding
(`payloadSize_ok`); the writer refuses an edit whose fields needed some.
-/

namespace Kvdb

open Faulty Bytes

def MANIFEST_MAX_EDIT_SIZE : Nat := 64 * 1024 * 1024
def MANIFEST_MAX_TABLES_PER_EDIT : Nat := 1000000
def VERSION_EDIT_HAS_NEXT_TABLE_ID : UInt32 := 1
def VERSION_EDIT_HAS_NEXT_SEQUENCE_NUMBER : UInt32 := 2
def VERSION_EDIT_HAS_CURRENT_WAL_ID : UInt32 := 4
def VERSION_EDIT_KNOWN_FLAGS : UInt32 :=
  VERSION_EDIT_HAS_NEXT_TABLE_ID ||| VERSION_EDIT_HAS_NEXT_SEQUENCE_NUMBER ||| VERSION_EDIT_HAS_CURRENT_WAL_ID
def MIN_PAYLOAD_SIZE : Nat := 4 + 4 + 4

/-- `checked_add_u64`. -/
def checkedAddU64 (destination value : Nat) (what : String) : Except Status Nat :=
  if value > 2 ^ 64 - 1 - destination then .error ⟨.allocationTooLarge, what ++ " size overflow"⟩
  else .ok (destination + value)

/-- `checked_u32_count`. -/
def checkedU32Count (value : Nat) (name : String) : Except Status UInt32 :=
  if value > MANIFEST_MAX_TABLES_PER_EDIT then
    .error ⟨.allocationTooLarge, name ++ " " ++ toString value ++ " exceeds manifest limit "
      ++ toString MANIFEST_MAX_TABLES_PER_EDIT⟩
  else if value > 2 ^ 32 - 1 then
    .error ⟨.allocationTooLarge, name ++ " " ++ toString value ++ " exceeds uint32_t"⟩
  else .ok (UInt32.ofNat value)

/-- `require_remaining`. -/
def requireRemaining (offset payloadEnd bytes : Nat) (field : String) : Except Status Unit :=
  if offset > payloadEnd ∨ bytes > payloadEnd - offset then
    .error ⟨.invalidPayloadSize, field ++ " does not fit in declared version-edit payload"⟩
  else .ok ()

/-- The cursor check at the head of the manifest's writers. -/
def checkManifestOffset : WriterM Status Unit := do
  let w ← Faulty.get
  ensure (w.bytes.length == w.offset)
    ⟨.invalidOffset, "current writable file offset " ++ toString w.bytes.length ++ " and tracked offset "
      ++ toString w.offset ++ " differ"⟩

structure DeletedTable where
  level : UInt32
  tableId : UInt64
deriving DecidableEq

namespace DeletedTable

def diskSize : Nat := 4 + 8

def fields (d : DeletedTable) : List (List UInt8) := [u32Bytes d.level, u64Bytes d.tableId]

/-- `DeletedTable::calculate_crc` on a running checksum. -/
def calculateCrc [Zlib] (d : DeletedTable) (crc : UInt32) : UInt32 := d.fields.foldl computeCrc32 crc

/-- `DeletedTable::write`. -/
def write (d : DeletedTable) : WriterM Status Unit := do
  checkManifestOffset
  writeU32Le d.level MANIFEST_BLOCK_SIZE
  writeU64Le d.tableId MANIFEST_BLOCK_SIZE

/-- `DeletedTable::load`. -/
def load : FileReader DeletedTable := do
  let level ← readU32Le MANIFEST_BLOCK_SIZE
  let tableId ← readU64Le MANIFEST_BLOCK_SIZE
  pure ⟨level, tableId⟩

end DeletedTable

/-- `VersionEdit::Header`. -/
structure EditHeader where
  crc32 : UInt32
  payloadSize : UInt32
deriving DecidableEq

namespace EditHeader

def diskSize : Nat := 4 + 4

/-- `VersionEdit::Header::write`. -/
def write (h : EditHeader) : WriterM Status Unit := do
  checkManifestOffset
  writeU32Le h.crc32 MANIFEST_BLOCK_SIZE
  writeU32Le h.payloadSize MANIFEST_BLOCK_SIZE

/-- `VersionEdit::Header::load`. -/
def load : FileReader EditHeader := do
  let crc32 ← readU32Le MANIFEST_BLOCK_SIZE
  let payloadSize ← readU32Le MANIFEST_BLOCK_SIZE
  Reader.ensure (decide (MIN_PAYLOAD_SIZE ≤ payloadSize.toNat))
    ⟨.invalidPayloadSize, "version edit payload size " ++ toString payloadSize ++ " is below minimum "
      ++ toString MIN_PAYLOAD_SIZE⟩
  Reader.ensure (decide (payloadSize.toNat ≤ MANIFEST_MAX_EDIT_SIZE))
    ⟨.invalidPayloadSize, "version edit payload size " ++ toString payloadSize ++ " exceeds limit "
      ++ toString MANIFEST_MAX_EDIT_SIZE⟩
  pure ⟨crc32, payloadSize⟩

end EditHeader

structure VersionEdit where
  nextTableId : Option UInt64 := none
  nextSequenceNumber : Option UInt64 := none
  currentWalId : Option UInt64 := none
  deletedTables : List DeletedTable := []
  newTables : List TableMeta := []
deriving DecidableEq

namespace VersionEdit

/-- `payload_flags`. -/
def payloadFlags (e : VersionEdit) : UInt32 :=
  (if e.nextTableId.isSome then VERSION_EDIT_HAS_NEXT_TABLE_ID else 0)
    ||| (if e.nextSequenceNumber.isSome then VERSION_EDIT_HAS_NEXT_SEQUENCE_NUMBER else 0)
    ||| (if e.currentWalId.isSome then VERSION_EDIT_HAS_CURRENT_WAL_ID else 0)

/-- `Payload::validate`. -/
def validate (e : VersionEdit) : Except Status Unit := do
  let _ ← checkedU32Count e.deletedTables.length "deleted table count"
  let _ ← checkedU32Count e.newTables.length "new table count"
  if e.nextTableId = some 0 then .error ⟨.invalidArgument, "next_table_id cannot be zero"⟩
  else if e.nextSequenceNumber = some 0 then
    .error ⟨.invalidArgument, "next_sequence_number cannot be zero"⟩
  else if e.currentWalId = some 0 then .error ⟨.invalidArgument, "current_wal_id cannot be zero"⟩
  else if e.deletedTables.any (fun d => d.tableId == 0) then
    .error ⟨.invalidArgument, "deleted table id cannot be zero"⟩
  else if e.newTables.any (fun t => t.tableId == 0) then
    .error ⟨.invalidArgument, "new table id cannot be zero"⟩
  else .ok ()

/-- The bytes of an optional counter: none when it is absent. -/
def optFields : Option UInt64 → List (List UInt8)
  | none => []
  | some x => [u64Bytes x]

/-- The optional counters, in the order they are written. -/
def counterFields (e : VersionEdit) : List (List UInt8) :=
  optFields e.nextTableId ++ (optFields e.nextSequenceNumber ++ optFields e.currentWalId)

/-- The two table counts. -/
def countFields (e : VersionEdit) : List (List UInt8) :=
  [u32Bytes (UInt32.ofNat e.deletedTables.length), u32Bytes (UInt32.ofNat e.newTables.length)]

/-- The payload, field by field, in the order it is written and checksummed. -/
def fields (e : VersionEdit) : List (List UInt8) :=
  u32Bytes e.payloadFlags :: (e.counterFields ++ (e.countFields ++
    (e.deletedTables.flatMap DeletedTable.fields ++ e.newTables.flatMap TableMeta.fields)))

/-- `Payload::encoded_size`. -/
def payloadSize (e : VersionEdit) : Except Status UInt32 := do
  e.validate
  let size := MIN_PAYLOAD_SIZE + (if e.nextTableId.isSome then 8 else 0)
    + (if e.nextSequenceNumber.isSome then 8 else 0) + (if e.currentWalId.isSome then 8 else 0)
  let size ← checkedAddU64 size (e.deletedTables.length * DeletedTable.diskSize) "version edit payload"
  let size ← e.newTables.foldlM (fun size t => do
    let tableSize ← t.diskSize
    checkedAddU64 size tableSize.toNat "version edit payload") size
  if size > MANIFEST_MAX_EDIT_SIZE ∨ size > 2 ^ 32 - 1 then
    .error ⟨.allocationTooLarge, "version edit payload size " ++ toString size ++ " exceeds supported maximum"⟩
  else .ok (UInt32.ofNat size)

/-- `Payload::compute_crc32`. -/
def computeCrc32 [Zlib] (e : VersionEdit) : Except Status UInt32 := do
  e.validate
  let crc := (u32Bytes e.payloadFlags :: (e.counterFields ++ e.countFields)).foldl Kvdb.computeCrc32 crc32Init
  let crc := e.deletedTables.foldl (fun crc d => d.calculateCrc crc) crc
  e.newTables.foldlM (fun crc t => t.calculateCrc crc) crc

/-- `VersionEdit::prepare`: the header of the edit. -/
def prepare [Zlib] (e : VersionEdit) : Except Status EditHeader := do
  let payloadSize ← e.payloadSize
  let crc32 ← e.computeCrc32
  pure ⟨crc32, payloadSize⟩

/-! ## Writing -/

/-- An optional counter. -/
def writeOpt : Option UInt64 → WriterM Status Unit
  | none => pure ()
  | some x => writeU64Le x MANIFEST_BLOCK_SIZE

/-- A loop that writes one element after the other. -/
def writeEach {α : Type} (f : α → WriterM Status Unit) : List α → WriterM Status Unit
  | [] => pure ()
  | a :: as => do
    f a
    writeEach f as

/-- The field writes of `Payload::write`. -/
def writePayloadFields (e : VersionEdit) : WriterM Status Unit := do
  writeU32Le e.payloadFlags MANIFEST_BLOCK_SIZE
  writeOpt e.nextTableId
  writeOpt e.nextSequenceNumber
  writeOpt e.currentWalId
  writeU32Le (UInt32.ofNat e.deletedTables.length) MANIFEST_BLOCK_SIZE
  writeU32Le (UInt32.ofNat e.newTables.length) MANIFEST_BLOCK_SIZE
  writeEach DeletedTable.write e.deletedTables
  writeEach TableMeta.write e.newTables

/-- `Payload::write`. -/
def writePayload (e : VersionEdit) : WriterM Status Unit := do
  let size ← lift e.payloadSize
  let begin ← Faulty.get
  writePayloadFields e
  let w ← Faulty.get
  ensure (w.offset - begin.offset == size.toNat)
    ⟨.invariantViolation, "payload writer produced " ++ toString (w.offset - begin.offset)
      ++ " bytes; encoded size is " ++ toString size⟩

/-- `VersionEdit::write`. -/
def write [Zlib] (e : VersionEdit) : WriterM Status Unit := do
  let header ← lift e.prepare
  let begin ← Faulty.get
  header.write
  writePayload e
  let w ← Faulty.get
  ensure (w.offset - begin.offset == EditHeader.diskSize + header.payloadSize.toNat)
    ⟨.invariantViolation, "version edit writer produced " ++ toString (w.offset - begin.offset)
      ++ " bytes; expected " ++ toString (EditHeader.diskSize + header.payloadSize.toNat)⟩

/-! ## Loading -/

/-- The `read_u32` of `Payload::load`, which first looks at what is left of the payload. -/
def readU32In (payloadEnd : Nat) (field : String) : FileReader UInt32 := do
  let offset ← Reader.offset
  Reader.lift (requireRemaining offset payloadEnd 4 field)
  readU32Le MANIFEST_BLOCK_SIZE

/-- The `read_u64` of `Payload::load`. -/
def readU64In (payloadEnd : Nat) (field : String) : FileReader UInt64 := do
  let offset ← Reader.offset
  Reader.lift (requireRemaining offset payloadEnd 8 field)
  readU64Le MANIFEST_BLOCK_SIZE

/-- An optional counter, present when its flag is set. -/
def readOpt (payloadEnd : Nat) (flags flag : UInt32) (field : String) : FileReader (Option UInt64) :=
  if flags &&& flag ≠ 0 then do
    let value ← readU64In payloadEnd field
    pure (some value)
  else pure none

/-- One deleted table inside the payload. -/
def readDeleted (payloadEnd : Nat) : FileReader DeletedTable := do
  let offset ← Reader.offset
  Reader.lift (requireRemaining offset payloadEnd DeletedTable.diskSize "deleted table")
  DeletedTable.load

/-- One new table inside the payload. -/
def readNew (payloadEnd : Nat) : FileReader TableMeta := do
  let offset ← Reader.offset
  Reader.ensure (decide (offset < payloadEnd)) ⟨.invalidPayloadSize, "new table starts outside payload"⟩
  let table ← TableMeta.load
  let offset ← Reader.offset
  Reader.ensure (decide (offset ≤ payloadEnd))
    ⟨.invalidPayloadSize, "TableMeta crossed the version-edit payload boundary"⟩
  pure table

/-- A loop that reads `count` elements. -/
def readEach {α : Type} (r : FileReader α) : Nat → FileReader (List α)
  | 0 => pure []
  | count + 1 => do
    let a ← r
    let as ← readEach r count
    pure (a :: as)

/-- `a - b` of two `uint64_t`. -/
def subU64 (a b : Nat) : Nat := if b ≤ a then a - b else 2 ^ 64 - (b - a)

/-- The reads of `Payload::load` up to `payloadEnd`. -/
def loadPayloadTo (payloadEnd : Nat) : FileReader VersionEdit := do
  let flags ← readU32In payloadEnd "flags"
  Reader.ensure (flags &&& ~~~VERSION_EDIT_KNOWN_FLAGS == 0)
    ⟨.corruption, "unknown version edit flags: 0x" ++ hex8 flags⟩
  let nextTableId ← readOpt payloadEnd flags VERSION_EDIT_HAS_NEXT_TABLE_ID "next_table_id"
  let nextSequenceNumber ←
    readOpt payloadEnd flags VERSION_EDIT_HAS_NEXT_SEQUENCE_NUMBER "next_sequence_number"
  let currentWalId ← readOpt payloadEnd flags VERSION_EDIT_HAS_CURRENT_WAL_ID "current_wal_id"
  let deletedCount ← readU32In payloadEnd "deleted table count"
  let newCount ← readU32In payloadEnd "new table count"
  Reader.ensure (decide (deletedCount.toNat ≤ MANIFEST_MAX_TABLES_PER_EDIT
      ∧ newCount.toNat ≤ MANIFEST_MAX_TABLES_PER_EDIT))
    ⟨.allocationTooLarge, "version edit table count exceeds configured safety limit"⟩
  let offset ← Reader.offset
  -- the padding in front of a count can end behind the payload
  let remaining := subU64 payloadEnd offset
  Reader.ensure (decide (deletedCount.toNat * DeletedTable.diskSize ≤ remaining))
    ⟨.invalidPayloadSize, "deleted table array does not fit in payload"⟩
  Reader.ensure (decide (newCount.toNat ≤ remaining - deletedCount.toNat * DeletedTable.diskSize))
    ⟨.invalidPayloadSize, "new table count cannot fit in payload"⟩
  let deletedTables ← readEach (readDeleted payloadEnd) deletedCount.toNat
  let newTables ← readEach (readNew payloadEnd) newCount.toNat
  let offset ← Reader.offset
  Reader.ensure (offset == payloadEnd)
    ⟨.invalidPayloadSize, "version edit payload ended at " ++ toString offset ++ ", expected "
      ++ toString payloadEnd⟩
  let edit : VersionEdit := { nextTableId, nextSequenceNumber, currentWalId, deletedTables, newTables }
  Reader.lift edit.validate
  pure edit

/-- `Payload::load`. -/
def loadPayload (payloadSize : UInt32) : FileReader VersionEdit := do
  Reader.ensure (decide (MIN_PAYLOAD_SIZE ≤ payloadSize.toNat ∧ payloadSize.toNat ≤ MANIFEST_MAX_EDIT_SIZE))
    ⟨.invalidPayloadSize, "invalid version edit payload size " ++ toString payloadSize⟩
  let offset ← Reader.offset
  loadPayloadTo (offset + payloadSize.toNat)

/-- `VersionEdit::load`. -/
def load [Zlib] (file : ReadableFile) (editBegin fileSize : Nat) : Except Status (VersionEdit × Nat) :=
  if editBegin > fileSize ∨ EditHeader.diskSize > fileSize - editBegin then
    .error ⟨.unexpectedEOF, "truncated version edit header"⟩
  else
    match EditHeader.load file editBegin with
    | .error e => .error e
    | .ok (header, offset) =>
      if header.payloadSize.toNat > fileSize - offset then
        .error ⟨.unexpectedEOF, "truncated version edit at offset " ++ toString editBegin ++ ": payload needs "
          ++ toString header.payloadSize ++ " bytes, only " ++ toString (fileSize - offset) ++ " remain"⟩
      else
        match loadPayload header.payloadSize file offset with
        | .error e =>
          if e.code = .unexpectedEOF then
            .error ⟨.corruption, "version edit at offset " ++ toString editBegin
              ++ " is structurally truncated inside a complete declared record"⟩
          else .error e
        | .ok (edit, offset) =>
          match edit.computeCrc32 with
          | .error e => .error e
          | .ok actualCrc =>
            if actualCrc ≠ header.crc32 then
              .error ⟨.checksumMismatch, "manifest version edit crc mismatch at offset " ++ toString editBegin
                ++ ": expected=0x" ++ hex8 header.crc32 ++ " actual=0x" ++ hex8 actualCrc⟩
            else .ok (edit, offset)

/-! ## Sizes and checksums -/

section Sizes

variable {e : VersionEdit}

theorem length_optFields (o : Option UInt64) : (optFields o).flatten.length = if o.isSome then 8 else 0 := by
  cases o with
  | none => rfl
  | some x => simp [optFields]

theorem length_deletedFields (ds : List DeletedTable) :
    (ds.flatMap DeletedTable.fields).flatten.length = ds.length * DeletedTable.diskSize := by
  induction ds with
  | nil => rfl
  | cons d ds ih =>
    rw [List.flatMap_cons, List.flatten_append, List.length_append, ih]
    simp only [DeletedTable.fields, List.flatten_cons, List.flatten_nil, List.length_append, length_u32Bytes,
      length_u64Bytes, List.length_nil, DeletedTable.diskSize, List.length_cons]
    omega

/-- The length of the payload without padding. -/
theorem length_fields (e : VersionEdit) :
    e.fields.flatten.length =
      MIN_PAYLOAD_SIZE + (if e.nextTableId.isSome then 8 else 0)
        + (if e.nextSequenceNumber.isSome then 8 else 0) + (if e.currentWalId.isSome then 8 else 0)
        + e.deletedTables.length * DeletedTable.diskSize
        + (e.newTables.flatMap TableMeta.fields).flatten.length := by
  simp only [fields, counterFields, countFields, List.flatten_cons, List.flatten_append, List.flatten_nil,
    List.length_append, length_optFields, length_deletedFields, length_u32Bytes, List.length_nil,
    MIN_PAYLOAD_SIZE]
  omega

theorem checkedAddU64_ok {a b c : Nat} {what : String} (h : checkedAddU64 a b what = .ok c) : c = a + b := by
  unfold checkedAddU64 at h
  split at h
  · cases h
  · cases h
    rfl

theorem diskSize_valid {t : TableMeta} {n : UInt32} (h : t.diskSize = .ok n) : t.validate = .ok () := by
  obtain ⟨_, hv, -⟩ := except_bind_ok h
  exact hv

/-- The length of a table's fields fits the 32 bits of its declared size. -/
theorem diskSize_toNat {t : TableMeta} {n : UInt32} (h : t.diskSize = .ok n) :
    n.toNat = t.fields.flatten.length := by
  have hv := diskSize_valid h
  rw [TableMeta.diskSize_ok hv] at h
  cases h
  have hle := TableMeta.variable_le (TableMeta.validate_path hv).2
  have hlen := t.flatten_fields_length
  rw [UInt32.toNat_ofNat']
  apply Nat.mod_eq_of_lt
  simp only [MAX_TABLE_META_VARIABLE_BYTES, MANIFEST_BLOCK_SIZE] at hle
  omega

theorem tableSizes_ok {ts : List TableMeta} {size n : Nat}
    (h : ts.foldlM (fun size t => do
      let tableSize ← t.diskSize
      checkedAddU64 size tableSize.toNat "version edit payload") size = Except.ok n) :
    (∀ t ∈ ts, t.validate = .ok ()) ∧ n = size + (ts.flatMap TableMeta.fields).flatten.length := by
  induction ts generalizing size with
  | nil =>
    cases h
    exact ⟨by simp, rfl⟩
  | cons t ts ih =>
    rw [List.foldlM_cons] at h
    obtain ⟨size', hsize, hrest⟩ := except_bind_ok h
    obtain ⟨m, hm, hadd⟩ := except_bind_ok hsize
    obtain ⟨hts, hn⟩ := ih hrest
    refine ⟨?_, ?_⟩
    · intro t' ht'
      rcases List.mem_cons.mp ht' with rfl | ht'
      · exact diskSize_valid hm
      · exact hts t' ht'
    · rw [hn, checkedAddU64_ok hadd, diskSize_toNat hm, List.flatMap_cons, List.flatten_append,
        List.length_append, Nat.add_assoc]

/-- An edit is valid, and so is every table it adds. -/
structure Valid (e : VersionEdit) : Prop where
  payload : e.validate = .ok ()
  tables : ∀ t ∈ e.newTables, t.validate = .ok ()
  size_le : e.fields.flatten.length ≤ MANIFEST_MAX_EDIT_SIZE

/-- The declared size of an edit is the length of its fields. -/
theorem payloadSize_ok {n : UInt32} (h : e.payloadSize = .ok n) :
    e.Valid ∧ n.toNat = e.fields.flatten.length := by
  obtain ⟨_, hv, h⟩ := except_bind_ok h
  obtain ⟨s1, h1, h⟩ := except_bind_ok h
  obtain ⟨s2, h2, h⟩ := except_bind_ok h
  obtain ⟨ht, hs2⟩ := tableSizes_ok h2
  have hlen : s2 = e.fields.flatten.length := by
    rw [hs2, checkedAddU64_ok h1, length_fields]
  split at h
  · cases h
  · next hmax =>
    obtain ⟨hle, hlt⟩ := not_or.mp hmax
    cases h
    refine ⟨⟨hv, ht, by omega⟩, ?_⟩
    rw [UInt32.toNat_ofNat', Nat.mod_eq_of_lt (by omega), hlen]

theorem foldl_deletedCrc [Zlib] (ds : List DeletedTable) (crc : UInt32) :
    ds.foldl (fun crc d => d.calculateCrc crc) crc =
      (ds.flatMap DeletedTable.fields).foldl Kvdb.computeCrc32 crc := by
  induction ds generalizing crc with
  | nil => rfl
  | cons d ds ih =>
    rw [List.foldl_cons, ih, List.flatMap_cons, List.foldl_append]
    rfl

theorem foldlM_tableCrc [Zlib] {ts : List TableMeta} (h : ∀ t ∈ ts, t.validate = .ok ()) (crc : UInt32) :
    ts.foldlM (fun crc t => t.calculateCrc crc) crc =
      Except.ok ((ts.flatMap TableMeta.fields).foldl Kvdb.computeCrc32 crc) := by
  induction ts generalizing crc with
  | nil => rfl
  | cons t ts ih =>
    rw [List.foldlM_cons, TableMeta.calculateCrc_ok (h t (by simp)), ok_bind,
      ih (fun t' ht' => h t' (by simp [ht'])), List.flatMap_cons, List.foldl_append]

/-- The checksum of a valid edit is that of its fields. -/
theorem computeCrc32_ok [Zlib] (h : e.Valid) : e.computeCrc32 = .ok (crc32Fields e.fields) := by
  rw [computeCrc32, h.payload, ok_bind, foldlM_tableCrc h.tables, foldl_deletedCrc]
  simp only [crc32Fields, fields, List.foldl_cons, List.foldl_append]

theorem prepare_ok [Zlib] {header : EditHeader} (h : e.prepare = .ok header) :
    e.Valid ∧ e.payloadSize = .ok header.payloadSize ∧ header.crc32 = crc32Fields e.fields ∧
      header.payloadSize.toNat = e.fields.flatten.length := by
  obtain ⟨n, hn, h⟩ := except_bind_ok h
  obtain ⟨crc, hcrc, h⟩ := except_bind_ok h
  obtain ⟨hv, hsize⟩ := payloadSize_ok hn
  rw [computeCrc32_ok hv] at hcrc
  cases hcrc
  cases h
  exact ⟨hv, hn, rfl, hsize⟩

end Sizes

end VersionEdit

end Kvdb
