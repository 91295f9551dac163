import Kvdb.Utils.Crc32
import Kvdb.Utils.Fields
import Kvdb.Utils.Record

/-!
# Table metadata

`TableMeta` (`core/engine/table_meta.cpp`): what the manifest stores for one
table, with its validation, checksum, writer and loader.  A path is the bytes of
its generic string.
-/

namespace Kvdb

open Faulty Bytes

def MANIFEST_BLOCK_SIZE : Nat := 4096
def MAX_TABLE_META_VARIABLE_BYTES : Nat := MANIFEST_BLOCK_SIZE * 16
def TABLE_META_FIXED_DISK_BYTES : Nat := 80

structure TableMeta where
  tableId : UInt64
  level : UInt32
  path : List UInt8
  minSeq : UInt64
  maxSeq : UInt64
  fileSize : UInt64
  recordCount : UInt64
  tombstoneCount : UInt64
  dataBlockCount : UInt64
  dataBytes : UInt64
  smallestKey : ArenaEntry
  largestKey : ArenaEntry
deriving DecidableEq

/-- `validate_variable_payload_size`. -/
def validateVariablePayloadSize (pathSize smallestKeySize largestKeySize : Nat) : Except Status Unit :=
  if pathSize + smallestKeySize + largestKeySize > MAX_TABLE_META_VARIABLE_BYTES then
    .error ⟨.allocationTooLarge, "table meta variable payload "
      ++ toString (pathSize + smallestKeySize + largestKeySize) ++ " bytes exceeds maximum "
      ++ toString MAX_TABLE_META_VARIABLE_BYTES⟩
  else .ok ()

/-- `checked_u32_size`. -/
def checkedU32Size (value : Nat) (name : String) : Except Status UInt32 :=
  if value > 2 ^ 32 - 1 then
    .error ⟨.allocationTooLarge, name ++ " size " ++ toString value ++ " exceeds uint32_t"⟩
  else .ok (UInt32.ofNat value)

namespace TableMeta

/-- `TableMeta::validate`. -/
def validate (t : TableMeta) : Except Status Unit := do
  let pathSize ← checkedU32Size t.path.length "path"
  validateVariablePayloadSize pathSize.toNat t.smallestKey.size t.largestKey.size
  if t.minSeq > t.maxSeq then
    .error ⟨.corruption, "table min sequence " ++ toString t.minSeq ++ " exceeds max sequence "
      ++ toString t.maxSeq⟩
  else if t.tombstoneCount > t.recordCount then
    .error ⟨.corruption, "table tombstone count " ++ toString t.tombstoneCount ++ " exceeds record count "
      ++ toString t.recordCount⟩
  else if t.dataBytes > t.fileSize then
    .error ⟨.corruption, "table data bytes " ++ toString t.dataBytes ++ " exceeds file size "
      ++ toString t.fileSize⟩
  else if t.recordCount ≠ 0 ∧ t.smallestKey.size ≠ 0 ∧ t.largestKey.size = 0 then
    .error ⟨.corruption, "table smallest key is greater than empty largest key"⟩
  else if t.recordCount ≠ 0 ∧ t.smallestKey.size ≠ 0 ∧ t.largestKey.size ≠ 0 ∧
      t.largestKey.lt t.smallestKey = true then
    .error ⟨.corruption, "table largest key is smaller than smallest key"⟩
  else .ok ()

/-- `TableMeta::disk_size`. -/
def diskSize (t : TableMeta) : Except Status UInt32 := do
  t.validate
  let pathSize ← checkedU32Size t.path.length "path"
  checkedU32Size (TABLE_META_FIXED_DISK_BYTES + (pathSize.toNat + t.smallestKey.size + t.largestKey.size))
    "serialized table meta"

/-- The fields in the order they are written and checksummed. -/
def fields (t : TableMeta) : List (List UInt8) :=
  [u64Bytes t.tableId, u32Bytes t.level, u64Bytes t.minSeq, u64Bytes t.maxSeq, u64Bytes t.fileSize,
    u64Bytes t.recordCount, u64Bytes t.tombstoneCount, u64Bytes t.dataBlockCount, u64Bytes t.dataBytes,
    u32Bytes (UInt32.ofNat t.path.length), u32Bytes t.smallestKey.size32, u32Bytes t.largestKey.size32,
    t.path, t.smallestKey.bytes, t.largestKey.bytes]

/-- `TableMeta::calculate_crc` on a running checksum. -/
def calculateCrc [Zlib] (t : TableMeta) (crc : UInt32) : Except Status UInt32 := do
  t.validate
  let _ ← checkedU32Size t.path.length "path"
  pure (t.fields.foldl computeCrc32 crc)

/-- The cursor check of `TableMeta::write`. -/
def checkOffset : WriterM Status Unit := do
  let w ← Faulty.get
  ensure (w.bytes.length == w.offset)
    ⟨.invalidOffset, "writable file current offset " ++ toString w.bytes.length ++ " and tracked offset "
      ++ toString w.offset ++ " differ"⟩

/-- `TableMeta::write`. -/
def write (t : TableMeta) : WriterM Status Unit := do
  lift t.validate
  let _ ← lift (checkedU32Size t.path.length "path")
  checkOffset
  writeFields MANIFEST_BLOCK_SIZE t.fields

/-- `TableMeta::load`. -/
def load : FileReader TableMeta := do
  let tableId ← readU64Le MANIFEST_BLOCK_SIZE
  let level ← readU32Le MANIFEST_BLOCK_SIZE
  let minSeq ← readU64Le MANIFEST_BLOCK_SIZE
  let maxSeq ← readU64Le MANIFEST_BLOCK_SIZE
  let fileSize ← readU64Le MANIFEST_BLOCK_SIZE
  let recordCount ← readU64Le MANIFEST_BLOCK_SIZE
  let tombstoneCount ← readU64Le MANIFEST_BLOCK_SIZE
  let dataBlockCount ← readU64Le MANIFEST_BLOCK_SIZE
  let dataBytes ← readU64Le MANIFEST_BLOCK_SIZE
  let pathSize ← readU32Le MANIFEST_BLOCK_SIZE
  let smallestSize ← readU32Le MANIFEST_BLOCK_SIZE
  let largestSize ← readU32Le MANIFEST_BLOCK_SIZE
  Reader.lift (validateVariablePayloadSize pathSize.toNat smallestSize.toNat largestSize.toNat)
  let path ← readBytes pathSize.toNat MANIFEST_BLOCK_SIZE
  let smallest ← readBytes smallestSize.toNat MANIFEST_BLOCK_SIZE
  let largest ← readBytes largestSize.toNat MANIFEST_BLOCK_SIZE
  let t : TableMeta :=
    { tableId, level, path, minSeq, maxSeq, fileSize, recordCount, tombstoneCount, dataBlockCount, dataBytes
      smallestKey := ArenaEntry.ofTake smallest smallestSize
      largestKey := ArenaEntry.ofTake largest largestSize }
  Reader.lift t.validate
  pure t

/-! ## What validation gives -/

theorem validate_path {t : TableMeta} (h : t.validate = .ok ()) :
    t.path.length < 2 ^ 32 ∧
      validateVariablePayloadSize t.path.length t.smallestKey.size t.largestKey.size = .ok () := by
  obtain ⟨pathSize, hp, hrest⟩ := except_bind_ok h
  obtain ⟨_, hv, -⟩ := except_bind_ok hrest
  unfold checkedU32Size at hp
  split at hp
  · cases hp
  · cases hp
    have hlt : t.path.length < 2 ^ 32 := by omega
    rw [UInt32.toNat_ofNat', Nat.mod_eq_of_lt hlt] at hv
    exact ⟨hlt, hv⟩

theorem checkedU32Size_ok {value : Nat} (h : value < 2 ^ 32) (name : String) :
    checkedU32Size value name = .ok (UInt32.ofNat value) := by
  rw [checkedU32Size, if_neg (by omega)]

theorem variable_le {a b c : Nat} (h : validateVariablePayloadSize a b c = .ok ()) :
    a + b + c ≤ MAX_TABLE_META_VARIABLE_BYTES := by
  unfold validateVariablePayloadSize at h
  split at h
  · cases h
  · omega

theorem flatten_fields_length (t : TableMeta) :
    t.fields.flatten.length = 80 + t.path.length + t.smallestKey.size + t.largestKey.size := by
  simp only [fields, List.flatten_cons, List.flatten_nil, List.length_append, length_u64Bytes, length_u32Bytes,
    List.length_nil, ArenaEntry.size]
  omega

/-- The declared size of a valid table is the length of its fields. -/
theorem diskSize_ok {t : TableMeta} (h : t.validate = .ok ()) :
    t.diskSize = .ok (UInt32.ofNat t.fields.flatten.length) := by
  obtain ⟨hp, hv⟩ := validate_path h
  have hle := variable_le hv
  have hmax : MAX_TABLE_META_VARIABLE_BYTES = 65536 := rfl
  have hnat : (UInt32.ofNat t.path.length).toNat = t.path.length := by
    rw [UInt32.toNat_ofNat']
    exact Nat.mod_eq_of_lt hp
  have hsum : TABLE_META_FIXED_DISK_BYTES + (t.path.length + t.smallestKey.size + t.largestKey.size) =
      t.fields.flatten.length := by
    rw [flatten_fields_length]
    show 80 + _ = _
    omega
  have hlt : t.fields.flatten.length < 2 ^ 32 := by
    rw [flatten_fields_length]
    omega
  rw [diskSize, h, ok_bind, checkedU32Size_ok hp, ok_bind, hnat, hsum, checkedU32Size_ok hlt]

theorem calculateCrc_ok [Zlib] {t : TableMeta} (h : t.validate = .ok ()) (crc : UInt32) :
    t.calculateCrc crc = .ok (t.fields.foldl computeCrc32 crc) := by
  obtain ⟨hp, -⟩ := validate_path h
  rw [calculateCrc, h, ok_bind, checkedU32Size_ok hp, ok_bind]
  rfl

end TableMeta

/-! ## Reading back -/

theorem manU32 (x : UInt32) : Decodes MANIFEST_BLOCK_SIZE (readU32Le MANIFEST_BLOCK_SIZE) (u32Bytes x) x :=
  decodes_u32 (by decide) x

theorem manU64 (x : UInt64) : Decodes MANIFEST_BLOCK_SIZE (readU64Le MANIFEST_BLOCK_SIZE) (u64Bytes x) x :=
  decodes_u64 (by decide) x

theorem manBytes {n : Nat} {d : List UInt8} (h : n = d.length) :
    Decodes MANIFEST_BLOCK_SIZE (readBytes n MANIFEST_BLOCK_SIZE) d d := by
  subst h
  exact decodes_bytes (by decide) d

theorem ArenaEntry.ofTake_bytes (e : ArenaEntry) : ArenaEntry.ofTake e.bytes e.size32 = e := by
  apply ArenaEntry.ext_bytes
  show e.bytes.take e.size32.toNat = e.bytes
  rw [e.size32_toNat, List.take_length]

/-- A valid table is read back from its fields. -/
theorem TableMeta.load_reads {t : TableMeta} (h : t.validate = .ok ()) :
    ReadsFields MANIFEST_BLOCK_SIZE TableMeta.load t.fields t := by
  obtain ⟨hp, hv⟩ := validate_path h
  have hnat : (UInt32.ofNat t.path.length).toNat = t.path.length := by
    rw [UInt32.toNat_ofNat']
    exact Nat.mod_eq_of_lt hp
  have hks := t.smallestKey.size32_toNat
  have hkl := t.largestKey.size32_toNat
  have hvar : validateVariablePayloadSize (UInt32.ofNat t.path.length).toNat t.smallestKey.size32.toNat
      t.largestKey.size32.toNat = .ok () := by
    rw [hnat, hks, hkl]
    exact hv
  refine (manU64 t.tableId).cons ((manU32 t.level).cons ((manU64 t.minSeq).cons ((manU64 t.maxSeq).cons
    ((manU64 t.fileSize).cons ((manU64 t.recordCount).cons ((manU64 t.tombstoneCount).cons
    ((manU64 t.dataBlockCount).cons ((manU64 t.dataBytes).cons
    ((manU32 (UInt32.ofNat t.path.length)).cons ((manU32 t.smallestKey.size32).cons
    ((manU32 t.largestKey.size32).cons (.lift hvar ?_))))))))))))
  refine (manBytes hnat).cons ((manBytes hks).cons ((manBytes hkl).cons ?_))
  rw [t.smallestKey.ofTake_bytes, t.largestKey.ofTake_bytes]
  exact .lift h (readsFields_pure t)

end Kvdb
