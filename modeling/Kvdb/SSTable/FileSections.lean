import Kvdb.SSTable.Sections

/-!
# The header and the footer of a table file

`core/sstable_entities/file_header_section` and `file_footer_section`: 24 checked
bytes at the start of the file, and 76 at a block edge at its end, which say where
the other sections are.

A footer that validates has its sections one behind the other in front of it
(`FileFooterSection.Layout`), and `finalize` makes one that does.
-/

namespace Kvdb

open Faulty Bytes

def FILE_HEADER_MAGIC : UInt32 := 0x53535431

def FILE_FOOTER_MAGIC : UInt32 := 0x46545231

def LATEST_SSTABLE_VERSION : UInt32 := 1

/-! ## The header -/

structure FileHeaderSection where
  magic : UInt32
  version : UInt32
  flags : UInt32
  blockSize : UInt32
  tableId : UInt32
  crc32 : UInt32
deriving DecidableEq

namespace FileHeaderSection

def diskSize : Nat := 24

/-- `validate_header_fields`. -/
def validateFields (h : FileHeaderSection) : Except Status Unit :=
  if h.magic ≠ FILE_HEADER_MAGIC then
    .error ⟨.badMagic, "invalid SSTable header magic: expected=0x" ++ hex8 FILE_HEADER_MAGIC ++ ", actual=0x"
      ++ hex8 h.magic⟩
  else if h.version = 0 ∨ h.version > LATEST_SSTABLE_VERSION then
    .error ⟨.unsupportedVersion, "unsupported SSTable version: file_version=" ++ toString h.version
      ++ ", latest_supported_version=" ++ toString LATEST_SSTABLE_VERSION⟩
  else if h.blockSize.toNat ≠ BLOCK_SIZE then
    .error ⟨.unsupportedBlockSize, "unsupported SSTable block size: file_block_size=" ++ toString h.blockSize
      ++ ", expected_block_size=" ++ toString BLOCK_SIZE⟩
  else .ok ()

def encode (h : FileHeaderSection) : List UInt8 :=
  u32Bytes h.magic ++ (u32Bytes h.version ++ (u32Bytes h.flags ++ (u32Bytes h.blockSize ++ (u32Bytes h.tableId ++
    u32Bytes h.crc32))))

@[simp] theorem length_encode (h : FileHeaderSection) : h.encode.length = diskSize := by
  simp [encode, diskSize]

section

variable [Zlib]

/-- `calculate_crc32`. -/
def calculateCrc32 (h : FileHeaderSection) : UInt32 :=
  crc32Fields [u32Bytes h.magic, u32Bytes h.version, u32Bytes h.flags, u32Bytes h.blockSize, u32Bytes h.tableId]

/-- The header with its checksum. -/
def sealed (h : FileHeaderSection) : FileHeaderSection := { h with crc32 := h.calculateCrc32 }

/-- The constructor of a table's header. -/
def ofTableId (tableId : UInt32) : FileHeaderSection :=
  sealed ⟨FILE_HEADER_MAGIC, LATEST_SSTABLE_VERSION, 0, UInt32.ofNat BLOCK_SIZE, tableId, 0⟩

/-- The fields one after the other. -/
def writeFields (h : FileHeaderSection) : WriterM Status Unit := do
  writeU32Le h.magic BLOCK_SIZE
  writeU32Le h.version BLOCK_SIZE
  writeU32Le h.flags BLOCK_SIZE
  writeU32Le h.blockSize BLOCK_SIZE
  writeU32Le h.tableId BLOCK_SIZE
  writeU32Le h.crc32 BLOCK_SIZE

/-- The check behind the fields, which started at `headerOffset`. -/
def checkPosition (headerOffset : Nat) : WriterM Status Unit := do
  let w ← Faulty.get
  ensure (w.bytes.length == w.offset && w.offset - headerOffset == diskSize)
    ⟨.invariantViolation, "SSTable header write ended at an unexpected file position"⟩

/-- `FileHeaderSection::write`: the header with its recomputed checksum. -/
def write (h : FileHeaderSection) : WriterM Status FileHeaderSection := do
  lift h.validateFields
  alignToBlockBoundary BLOCK_SIZE
  let w ← Faulty.get
  writeFields h.sealed
  checkPosition w.offset
  pure h.sealed

/-- `align_to_block_boundary` on a readable file. -/
def alignRead : FileReader Unit := fun _ off => .ok ((), aligned off)

/-- `FileHeaderSection::load`. -/
def load : FileReader FileHeaderSection := do
  alignRead
  let headerOffset ← Reader.offset
  let magic ← readU32Le BLOCK_SIZE
  let version ← readU32Le BLOCK_SIZE
  let flags ← readU32Le BLOCK_SIZE
  let blockSize ← readU32Le BLOCK_SIZE
  let tableId ← readU32Le BLOCK_SIZE
  let crc32 ← readU32Le BLOCK_SIZE
  let result : FileHeaderSection := ⟨magic, version, flags, blockSize, tableId, crc32⟩
  let offset ← Reader.offset
  Reader.ensure (offset - headerOffset == diskSize)
    ⟨.invariantViolation, "SSTable header load consumed an unexpected number of bytes"⟩
  Reader.ensure (result.magic == FILE_HEADER_MAGIC)
    ⟨.badMagic, "invalid SSTable header magic: expected=0x" ++ hex8 FILE_HEADER_MAGIC ++ ", actual=0x"
      ++ hex8 result.magic⟩
  Reader.ensure (result.calculateCrc32 == result.crc32)
    ⟨.checksumMismatch, "SSTable header CRC mismatch: expected=" ++ toString result.calculateCrc32 ++ ", actual="
      ++ toString result.crc32⟩
  Reader.lift result.validateFields
  pure result

/-- A header is written behind the alignment. -/
theorem emits_write {h : FileHeaderSection} (hv : h.validateFields = .ok ()) (off : Nat) :
    Emits h.write off (alignment off ++ h.sealed.encode) h.sealed := by
  have hfields : AppendsFitting BLOCK_SIZE (writeFields h.sealed) h.sealed.encode :=
    (writeU32_fitting _).bind ((writeU32_fitting _).bind ((writeU32_fitting _).bind ((writeU32_fitting _).bind
      ((writeU32_fitting _).bind (writeU32_fitting _)))))
  have hbody : Emits (writeFields h.sealed) (aligned off) h.sealed.encode () :=
    hfields.emits_edge (aligned_mod off) (by rw [length_encode]; decide)
  refine Emits.lift hv ((emits_align off).bind (.get fun w hw ho => hbody.last ?_))
  have ho' : w.offset = aligned off := ho
  have hcheck : Emits (checkPosition w.offset) (aligned off + h.sealed.encode.length) [] () := by
    refine emits_of_append fun w₁ hw₁ ho₁ => ?_
    have hsync : w₁.bytes.length = w₁.offset := hw₁.symm
    rw [checkPosition, bind_ok (get_apply w₁), ensure_apply, if_pos]
    · rfl
    · rw [hsync, ho₁, ho', length_encode, Nat.add_sub_cancel_left]
      simp
  exact hcheck.last (emits_pure _ _)

end

end FileHeaderSection

/-! ## The footer -/

structure FileFooterSection where
  magic : UInt32
  version : UInt32
  reserved : UInt32
  dataOffset : UInt64
  dataBlockCount : UInt64
  indexOffset : UInt64
  indexSize : UInt32
  bloomOffset : UInt64
  bloomSize : UInt32
  metaOffset : UInt64
  metaSize : UInt32
  fileSize : UInt64
  footerCrc32 : UInt32
deriving DecidableEq

/-- `is_block_aligned`. -/
def isBlockAligned (value : Nat) : Bool := value % BLOCK_SIZE == 0

/-- `validate_section_span`. -/
def validateSectionSpan (sectionOffset logicalSize nextSectionOffset : Nat) (sectionName : String) :
    Except Status Unit :=
  if sectionOffset ≥ nextSectionOffset then
    .error ⟨.offsetOverlap, sectionName ++ " section does not begin before the following section"⟩
  else if logicalSize > nextSectionOffset - sectionOffset then
    .error ⟨.offsetOverlap, sectionName ++ " logical size exceeds the physical span before the following section"⟩
  else .ok ()

namespace FileFooterSection

def diskSize : Nat := 76

def kSectionHeaderDiskSize : Nat := 9

def kBloomSectionDiskSizeV1 : Nat := 153

def kMetaMinimumDiskSizeV1 : Nat := 65

/-- The fields under the checksum. -/
def fields (f : FileFooterSection) : List (List UInt8) :=
  [u32Bytes f.magic, u32Bytes f.version, u32Bytes f.reserved, u64Bytes f.dataOffset, u64Bytes f.dataBlockCount,
    u64Bytes f.indexOffset, u32Bytes f.indexSize, u64Bytes f.bloomOffset, u32Bytes f.bloomSize, u64Bytes f.metaOffset,
    u32Bytes f.metaSize, u64Bytes f.fileSize]

def encode (f : FileFooterSection) : List UInt8 :=
  u32Bytes f.magic ++ (u32Bytes f.version ++ (u32Bytes f.reserved ++ (u64Bytes f.dataOffset ++
    (u64Bytes f.dataBlockCount ++ (u64Bytes f.indexOffset ++ (u32Bytes f.indexSize ++ (u64Bytes f.bloomOffset ++
    (u32Bytes f.bloomSize ++ (u64Bytes f.metaOffset ++ (u32Bytes f.metaSize ++ (u64Bytes f.fileSize ++
    u32Bytes f.footerCrc32)))))))))))

@[simp] theorem length_encode (f : FileFooterSection) : f.encode.length = diskSize := by
  simp [encode, diskSize]

/-- Where the index has to start: directly behind the declared data blocks. -/
def expectedIndexOffset (f : FileFooterSection) : UInt64 := f.dataOffset + f.dataBlockCount * UInt64.ofNat BLOCK_SIZE

/-- The part of `validate` about the data section. -/
def validateData (f : FileFooterSection) : Except Status Unit :=
  if f.dataBlockCount > 0 then
    if !isBlockAligned f.dataOffset.toNat then
      .error ⟨.invalidSectionOffset, "a nonempty data section must begin at a block boundary"⟩
    else if f.dataBlockCount.toNat > (2 ^ 64 - 1 - f.dataOffset.toNat) / BLOCK_SIZE then
      .error ⟨.dataTypeOverflow, "data section physical span overflows uint64_t"⟩
    else if f.expectedIndexOffset ≠ f.indexOffset then
      .error ⟨.offsetOverlap, "index offset does not immediately follow the declared data blocks: expected="
        ++ toString f.expectedIndexOffset ++ ", actual=" ++ toString f.indexOffset⟩
    else .ok ()
  else if f.dataOffset > f.indexOffset then
    .error ⟨.invalidSectionOffset, "empty data-section cursor cannot be after the index section"⟩
  else .ok ()

/-- The part of `validate` about the sizes of the sections. -/
def validateSizes (f : FileFooterSection) : Except Status Unit :=
  if f.indexSize.toNat < kSectionHeaderDiskSize then
    .error ⟨.invalidSectionSize, "index section is smaller than its encoded header"⟩
  else if f.bloomSize.toNat ≠ kBloomSectionDiskSizeV1 then
    .error ⟨.invalidSectionSize, "version-1 Bloom section size must be " ++ toString kBloomSectionDiskSizeV1
      ++ ", actual=" ++ toString f.bloomSize⟩
  else if f.metaSize.toNat < kMetaMinimumDiskSizeV1 ∨ f.metaSize.toNat > BLOCK_SIZE then
    .error ⟨.invalidSectionSize, "metadata section size must be in [" ++ toString kMetaMinimumDiskSizeV1 ++ ", "
      ++ toString BLOCK_SIZE ++ "], actual=" ++ toString f.metaSize⟩
  else .ok ()

/-- The part of `validate` about the place of the footer. -/
def validatePlace (f : FileFooterSection) (footerOffset actualFileSize : Nat) : Except Status Unit :=
  if f.magic ≠ FILE_FOOTER_MAGIC then
    .error ⟨.badMagic, "invalid SSTable footer magic: expected=0x" ++ hex8 FILE_FOOTER_MAGIC ++ ", actual=0x"
      ++ hex8 f.magic⟩
  else if f.version = 0 ∨ f.version > LATEST_SSTABLE_VERSION then
    .error ⟨.unsupportedVersion, "unsupported SSTable footer version: file_version=" ++ toString f.version
      ++ ", latest_supported=" ++ toString LATEST_SSTABLE_VERSION⟩
  else if f.reserved ≠ 0 then .error ⟨.invalidFooter, "SSTable footer reserved field must be zero"⟩
  else if !isBlockAligned footerOffset then
    .error ⟨.invalidBlockAlignment, "SSTable footer must begin at a physical block boundary"⟩
  else if footerOffset > 2 ^ 64 - 1 - diskSize then
    .error ⟨.dataTypeOverflow, "footer offset plus footer size overflows uint64_t"⟩
  else if actualFileSize ≠ footerOffset + diskSize ∨ f.fileSize.toNat ≠ actualFileSize then
    .error ⟨.invalidFooter,
      "footer is not the final object in the file or records the wrong file size: footer_offset="
      ++ toString footerOffset ++ ", encoded_file_size=" ++ toString f.fileSize ++ ", actual_file_size="
      ++ toString actualFileSize⟩
  else .ok ()

section

variable [Zlib]

/-- `calculate_crc32`. -/
def calculateCrc32 (f : FileFooterSection) : UInt32 := crc32Fields f.fields

/-- `FileFooterSection::validate`. -/
def validate (f : FileFooterSection) (footerOffset actualFileSize : Nat) : Except Status Unit := do
  f.validatePlace footerOffset actualFileSize
  if !isBlockAligned f.indexOffset.toNat || !isBlockAligned f.bloomOffset.toNat || !isBlockAligned
    f.metaOffset.toNat then
    .error ⟨.invalidSectionOffset, "index, Bloom, and metadata section offsets must be block aligned"⟩
  else do
    f.validateData
    f.validateSizes
    validateSectionSpan f.indexOffset.toNat f.indexSize.toNat f.bloomOffset.toNat "index"
    validateSectionSpan f.bloomOffset.toNat f.bloomSize.toNat f.metaOffset.toNat "Bloom"
    validateSectionSpan f.metaOffset.toNat f.metaSize.toNat footerOffset "metadata"
    if f.calculateCrc32 ≠ f.footerCrc32 then
      .error ⟨.checksumMismatch, "SSTable footer CRC mismatch: expected=" ++ toString f.calculateCrc32 ++ ", actual="
        ++ toString f.footerCrc32⟩
    else .ok ()

/-- The footer with the fields that `finalize` derives. -/
def sealed (f : FileFooterSection) (footerOffset : Nat) : FileFooterSection :=
  let staged : FileFooterSection :=
    { f with
      magic := FILE_FOOTER_MAGIC
      version := LATEST_SSTABLE_VERSION
      reserved := 0
      fileSize := UInt64.ofNat (footerOffset + diskSize) }
  { staged with footerCrc32 := staged.calculateCrc32 }

/-- `FileFooterSection::finalize` on a file that ends at its cursor. -/
def finalize (f : FileFooterSection) (footerOffset : Nat) : WriterM Status FileFooterSection := do
  let w ← Faulty.get
  ensure (w.bytes.length == footerOffset)
    ⟨.invalidOffset, "tracked footer offset does not match the writable file cursor"⟩
  ensure (isBlockAligned footerOffset)
    ⟨.invalidBlockAlignment, "footer finalization requires a block-aligned cursor"⟩
  ensure (w.bytes.length == footerOffset)
    ⟨.invalidState, "footer must be appended exactly at the current end of file"⟩
  ensure (decide (footerOffset ≤ 2 ^ 64 - 1 - diskSize))
    ⟨.dataTypeOverflow, "footer offset plus footer size overflows uint64_t"⟩
  lift ((f.sealed footerOffset).validate footerOffset (f.sealed footerOffset).fileSize.toNat)
  pure (f.sealed footerOffset)

end

/-- The fields one after the other. -/
def writeFields (f : FileFooterSection) : WriterM Status Unit := do
  writeU32Le f.magic BLOCK_SIZE
  writeU32Le f.version BLOCK_SIZE
  writeU32Le f.reserved BLOCK_SIZE
  writeU64Le f.dataOffset BLOCK_SIZE
  writeU64Le f.dataBlockCount BLOCK_SIZE
  writeU64Le f.indexOffset BLOCK_SIZE
  writeU32Le f.indexSize BLOCK_SIZE
  writeU64Le f.bloomOffset BLOCK_SIZE
  writeU32Le f.bloomSize BLOCK_SIZE
  writeU64Le f.metaOffset BLOCK_SIZE
  writeU32Le f.metaSize BLOCK_SIZE
  writeU64Le f.fileSize BLOCK_SIZE
  writeU32Le f.footerCrc32 BLOCK_SIZE

section

variable [Zlib]

/-- `FileFooterSection::write`: the footer is finalized once more. -/
def write (f : FileFooterSection) : WriterM Status FileFooterSection := do
  let w ← Faulty.get
  let staged ← f.finalize w.offset
  BloomSection.fitsHere diskSize
  staged.writeFields
  pure staged

end

/-- The fields of a footer. -/
def readFields : FileReader FileFooterSection := do
  let magic ← readU32Le BLOCK_SIZE
  let version ← readU32Le BLOCK_SIZE
  let reserved ← readU32Le BLOCK_SIZE
  let dataOffset ← readU64Le BLOCK_SIZE
  let dataBlockCount ← readU64Le BLOCK_SIZE
  let indexOffset ← readU64Le BLOCK_SIZE
  let indexSize ← readU32Le BLOCK_SIZE
  let bloomOffset ← readU64Le BLOCK_SIZE
  let bloomSize ← readU32Le BLOCK_SIZE
  let metaOffset ← readU64Le BLOCK_SIZE
  let metaSize ← readU32Le BLOCK_SIZE
  let fileSize ← readU64Le BLOCK_SIZE
  let footerCrc32 ← readU32Le BLOCK_SIZE
  pure ⟨magic, version, reserved, dataOffset, dataBlockCount, indexOffset, indexSize, bloomOffset, bloomSize,
    metaOffset,
    metaSize, fileSize, footerCrc32⟩

/-! ## Layout -/

/-- What the footer of a file of `footerOffset + diskSize` bytes says of the sections in front of it: they are
aligned, in order and do not overlap. -/
structure Layout (f : FileFooterSection) (footerOffset : Nat) : Prop where
  footer : footerOffset % BLOCK_SIZE = 0
  size : f.fileSize.toNat = footerOffset + diskSize
  index : f.indexOffset.toNat % BLOCK_SIZE = 0
  bloom : f.bloomOffset.toNat % BLOCK_SIZE = 0
  metadata : f.metaOffset.toNat % BLOCK_SIZE = 0
  data : f.dataBlockCount ≠ 0 → f.dataOffset.toNat % BLOCK_SIZE = 0 ∧
    f.dataOffset.toNat + f.dataBlockCount.toNat * BLOCK_SIZE = f.indexOffset.toNat
  empty : f.dataBlockCount = 0 → f.dataOffset.toNat ≤ f.indexOffset.toNat
  indexSize : kSectionHeaderDiskSize ≤ f.indexSize.toNat
  bloomSize : f.bloomSize.toNat = kBloomSectionDiskSizeV1
  metaSize : kMetaMinimumDiskSizeV1 ≤ f.metaSize.toNat ∧ f.metaSize.toNat ≤ BLOCK_SIZE
  indexEnd : f.indexOffset.toNat + f.indexSize.toNat ≤ f.bloomOffset.toNat
  bloomEnd : f.bloomOffset.toNat + f.bloomSize.toNat ≤ f.metaOffset.toNat
  metaEnd : f.metaOffset.toNat + f.metaSize.toNat ≤ footerOffset

theorem isBlockAligned_iff {value : Nat} : isBlockAligned value = true ↔ value % BLOCK_SIZE = 0 := beq_iff_eq

theorem validateSectionSpan_ok {o size next : Nat} {name : String}
    (h : validateSectionSpan o size next name = .ok ()) : o + size ≤ next := by
  unfold validateSectionSpan at h
  split at h
  · cases h
  split at h
  · cases h
  omega

theorem validateData_ok {f : FileFooterSection} (h : f.validateData = .ok ()) :
    (f.dataBlockCount ≠ 0 → f.dataOffset.toNat % BLOCK_SIZE = 0 ∧
      f.dataOffset.toNat + f.dataBlockCount.toNat * BLOCK_SIZE = f.indexOffset.toNat) ∧
      (f.dataBlockCount = 0 → f.dataOffset.toNat ≤ f.indexOffset.toNat) := by
  unfold validateData at h
  by_cases hcount : f.dataBlockCount > 0
  · rw [if_pos hcount] at h
    have hne : f.dataBlockCount ≠ 0 := by
      rintro h0
      rw [h0] at hcount
      exact absurd hcount (by decide)
    split at h
    · cases h
    next halign =>
    rw [Bool.not_eq_true', Bool.not_eq_false, isBlockAligned_iff] at halign
    split at h
    · cases h
    next hfit =>
    split at h
    · cases h
    next heq =>
    -- the guard in front of the sum keeps it below `2 ^ 64`
    have hmul : f.dataBlockCount.toNat * BLOCK_SIZE ≤ 2 ^ 64 - 1 - f.dataOffset.toNat :=
      le_trans (Nat.mul_le_mul_right _ (Nat.le_of_not_lt hfit)) (Nat.div_mul_le_self _ _)
    have hlt := f.dataOffset.toNat_lt
    have hsum : f.dataOffset.toNat + f.dataBlockCount.toNat * BLOCK_SIZE = f.indexOffset.toNat := by
      rw [← not_not.mp heq, expectedIndexOffset, UInt64.toNat_add, UInt64.toNat_mul]
      show _ = (f.dataOffset.toNat + f.dataBlockCount.toNat * BLOCK_SIZE % 2 ^ 64) % 2 ^ 64
      rw [Nat.mod_eq_of_lt (show f.dataBlockCount.toNat * BLOCK_SIZE < 2 ^ 64 by omega), Nat.mod_eq_of_lt (by omega)]
    exact ⟨fun _ => ⟨halign, hsum⟩, fun h0 => absurd h0 hne⟩
  · rw [if_neg hcount] at h
    have h0 : f.dataBlockCount = 0 := by
      by_contra hne
      have hnat : f.dataBlockCount.toNat ≠ 0 := fun h => hne (UInt64.toNat_inj.mp h)
      exact hcount (UInt64.lt_iff_toNat_lt.mpr (by show 0 < _; omega))
    split at h
    · cases h
    next hle =>
    refine ⟨fun hne => absurd h0 hne, fun _ => ?_⟩
    by_contra hgt
    exact hle (UInt64.lt_iff_toNat_lt.mpr (by omega))

theorem validateSizes_ok {f : FileFooterSection} (h : f.validateSizes = .ok ()) :
    kSectionHeaderDiskSize ≤ f.indexSize.toNat ∧ f.bloomSize.toNat = kBloomSectionDiskSizeV1 ∧
      kMetaMinimumDiskSizeV1 ≤ f.metaSize.toNat ∧ f.metaSize.toNat ≤ BLOCK_SIZE := by
  unfold validateSizes at h
  split at h
  · cases h
  split at h
  · cases h
  next hbloom =>
  split at h
  · cases h
  exact ⟨by omega, not_not.mp hbloom, by omega, by omega⟩

theorem validatePlace_ok {f : FileFooterSection} {footerOffset size : Nat}
    (h : f.validatePlace footerOffset size = .ok ()) :
    footerOffset % BLOCK_SIZE = 0 ∧ size = footerOffset + diskSize ∧ f.fileSize.toNat = size := by
  unfold validatePlace at h
  split at h
  · cases h
  split at h
  · cases h
  split at h
  · cases h
  split at h
  · cases h
  next halign =>
  rw [Bool.not_eq_true', Bool.not_eq_false, isBlockAligned_iff] at halign
  split at h
  · cases h
  split at h
  · cases h
  exact ⟨halign, by omega, by omega⟩

theorem writeFields_fitting (f : FileFooterSection) : AppendsFitting BLOCK_SIZE f.writeFields f.encode := by
  refine (writeU32_fitting _).bind ((writeU32_fitting _).bind ((writeU32_fitting _).bind ?_))
  refine (writeU64_fitting _).bind ((writeU64_fitting _).bind
    ((writeU64_fitting _).bind ((writeU32_fitting _).bind ?_)))
  refine (writeU64_fitting _).bind ((writeU32_fitting _).bind
    ((writeU64_fitting _).bind ((writeU32_fitting _).bind ?_)))
  exact (writeU64_fitting _).bind (writeU32_fitting _)

section

variable [Zlib]

/-- A footer that validates describes a layout. -/
theorem validate_ok {f : FileFooterSection} {footerOffset size : Nat} (h : f.validate footerOffset size = .ok ()) :
    size = footerOffset + diskSize ∧ f.Layout footerOffset := by
  obtain ⟨_, hplace, h⟩ := except_bind_ok h
  obtain ⟨hfooter, hsize, hfile⟩ := validatePlace_ok hplace
  split at h
  · cases h
  next haligned =>
  obtain ⟨_, hdata, h⟩ := except_bind_ok h
  obtain ⟨_, hsizes, h⟩ := except_bind_ok h
  obtain ⟨_, hindex, h⟩ := except_bind_ok h
  obtain ⟨_, hbloom, h⟩ := except_bind_ok h
  obtain ⟨_, hmeta, -⟩ := except_bind_ok h
  simp only [Bool.or_eq_true, Bool.not_eq_true', not_or, Bool.not_eq_false, isBlockAligned_iff] at haligned
  obtain ⟨hnonempty, hempty⟩ := validateData_ok hdata
  obtain ⟨hindexSize, hbloomSize, hmetaSize⟩ := validateSizes_ok hsizes
  exact
    ⟨hsize,
      { footer := hfooter
        size := by rw [hfile, hsize]
        index := haligned.1.1
        bloom := haligned.1.2
        metadata := haligned.2
        data := hnonempty
        empty := hempty
        indexSize := hindexSize
        bloomSize := hbloomSize
        metaSize := hmetaSize
        indexEnd := validateSectionSpan_ok hindex
        bloomEnd := validateSectionSpan_ok hbloom
        metaEnd := validateSectionSpan_ok hmeta }⟩

/-! ## Writing -/

/-- A finished `finalize` leaves the file as it is and gives the derived footer, which validates. -/
theorem finalize_ok {f g : FileFooterSection} {footerOffset : Nat} {w w' : Writer Status}
    (h : f.finalize footerOffset w = (.ok g, w')) :
    w' = w ∧ w.bytes.length = footerOffset ∧ g = f.sealed footerOffset ∧
      g.validate footerOffset g.fileSize.toNat = .ok () := by
  unfold finalize at h
  rw [bind_ok (get_apply w)] at h
  obtain ⟨hlen, h⟩ := ensure_bind_eq_ok h
  obtain ⟨-, h⟩ := ensure_bind_eq_ok h
  obtain ⟨-, h⟩ := ensure_bind_eq_ok h
  obtain ⟨-, h⟩ := ensure_bind_eq_ok h
  obtain ⟨_, hvalid, h⟩ := lift_bind_eq_ok h
  cases h
  exact ⟨rfl, beq_iff_eq.mp hlen, rfl, hvalid⟩

/-- A finished write put the derived footer at the end of the file. -/
theorem write_ok {f g : FileFooterSection} {w w' : Writer Status} (hw : w.Synced) (h : f.write w = (.ok g, w')) :
    g = f.sealed w.offset ∧ g.Layout w.offset ∧ w'.bytes = w.bytes ++ g.encode := by
  unfold write at h
  rw [bind_ok (get_apply w)] at h
  obtain ⟨staged, w₁, hfin, h⟩ := bind_eq_ok h
  obtain ⟨rfl, -, rfl, hvalid⟩ := finalize_ok hfin
  obtain ⟨-, hlayout⟩ := validate_ok hvalid
  have hroom : diskSize ≤ BLOCK_SIZE - w₁.offset % BLOCK_SIZE := by
    rw [hlayout.footer]
    decide
  have hfields := (writeFields_fitting (f.sealed w₁.offset)).emits_edge hlayout.footer (by rw [length_encode]; decide)
  have hall : Emits (do
      BloomSection.fitsHere diskSize
      writeFields (f.sealed w₁.offset)
      pure (f.sealed w₁.offset)) w₁.offset (f.sealed w₁.offset).encode (f.sealed w₁.offset) :=
    (emits_fitsHere hroom).then (hfields.last (emits_pure (f.sealed w₁.offset) _))
  obtain ⟨rfl, -, -, hbytes⟩ := hall.ok_bytes hw rfl h
  exact ⟨rfl, hlayout, hbytes⟩

/-- The fields of a footer that make up a layout. -/
theorem validate_sealed {f : FileFooterSection} {footerOffset : Nat} (hsize : footerOffset + diskSize < 2 ^ 64)
    (h : (f.sealed footerOffset).Layout footerOffset) :
    (f.sealed footerOffset).validate footerOffset (f.sealed footerOffset).fileSize.toNat = .ok () := by
  have hdisk : diskSize = 76 := rfl
  have hspan : ∀ (o size next : Nat) (name : String), 0 < size → o + size ≤ next →
      validateSectionSpan o size next name = .ok () := by
    intro o size next name hpos hle
    unfold validateSectionSpan
    rw [if_neg (by omega), if_neg (by omega)]
  have hplace : (f.sealed footerOffset).validatePlace footerOffset (f.sealed footerOffset).fileSize.toNat = .ok () := by
    have hmagic : (f.sealed footerOffset).magic = FILE_FOOTER_MAGIC := rfl
    have hversion : (f.sealed footerOffset).version = LATEST_SSTABLE_VERSION := rfl
    have hreserved : (f.sealed footerOffset).reserved = 0 := rfl
    unfold validatePlace
    rw [if_neg (not_not.mpr hmagic), hversion, if_neg (by decide), if_neg (not_not.mpr hreserved),
      if_neg (by rw [isBlockAligned_iff.mpr h.footer]; decide), if_neg (by omega), h.size, if_neg (by omega)]
  have hdata : (f.sealed footerOffset).validateData = .ok () := by
    unfold validateData
    by_cases h0 : (f.sealed footerOffset).dataBlockCount = 0
    · have hle := h.empty h0
      rw [if_neg (by rw [h0]; decide), if_neg]
      intro hgt
      have := UInt64.lt_iff_toNat_lt.mp hgt
      omega
    · obtain ⟨halign, hsum⟩ := h.data h0
      have hpos : (f.sealed footerOffset).dataBlockCount > 0 := by
        refine UInt64.lt_iff_toNat_lt.mpr ?_
        have hne : (f.sealed footerOffset).dataBlockCount.toNat ≠ 0 := fun hz => h0 (UInt64.toNat_inj.mp hz)
        show 0 < _
        omega
      have hlt := (f.sealed footerOffset).indexOffset.toNat_lt
      have hfit : (f.sealed footerOffset).dataBlockCount.toNat ≤
          (2 ^ 64 - 1 - (f.sealed footerOffset).dataOffset.toNat) / BLOCK_SIZE :=
        (Nat.le_div_iff_mul_le (by decide)).mpr (by omega)
      have hindex : (f.sealed footerOffset).expectedIndexOffset = (f.sealed footerOffset).indexOffset := by
        refine UInt64.toNat_inj.mp ?_
        rw [expectedIndexOffset, UInt64.toNat_add, UInt64.toNat_mul]
        show ((f.sealed footerOffset).dataOffset.toNat +
          (f.sealed footerOffset).dataBlockCount.toNat * BLOCK_SIZE % 2 ^ 64) % 2 ^ 64 = _
        rw [Nat.mod_eq_of_lt (show _ * BLOCK_SIZE < 2 ^ 64 by omega), hsum, Nat.mod_eq_of_lt hlt]
      rw [if_pos hpos, if_neg (by rw [isBlockAligned_iff.mpr halign]; decide), if_neg (by omega),
        if_neg (not_not.mpr hindex)]
  have hsizes : (f.sealed footerOffset).validateSizes = .ok () := by
    have h1 := h.indexSize
    obtain ⟨h2, h3⟩ := h.metaSize
    unfold validateSizes
    rw [if_neg (by omega), if_neg (not_not.mpr h.bloomSize), if_neg (by omega)]
  have hindexPos : 0 < (f.sealed footerOffset).indexSize.toNat := lt_of_lt_of_le (by decide) h.indexSize
  have hbloomPos : 0 < (f.sealed footerOffset).bloomSize.toNat := by
    rw [h.bloomSize]
    decide
  have hmetaPos : 0 < (f.sealed footerOffset).metaSize.toNat := lt_of_lt_of_le (by decide) h.metaSize.1
  have hcrc : (f.sealed footerOffset).calculateCrc32 = (f.sealed footerOffset).footerCrc32 := rfl
  unfold validate
  rw [hplace, ok_bind, if_neg (by simp [isBlockAligned_iff.mpr h.index, isBlockAligned_iff.mpr h.bloom,
    isBlockAligned_iff.mpr h.metadata]), hdata, ok_bind, hsizes, ok_bind, hspan _ _ _ _ hindexPos h.indexEnd, ok_bind,
    hspan _ _ _ _ hbloomPos h.bloomEnd, ok_bind, hspan _ _ _ _ hmetaPos h.metaEnd, ok_bind, if_neg (not_not.mpr hcrc)]

/-- A footer that describes the file in front of it is finalized. -/
theorem emits_finalize {f : FileFooterSection} {off : Nat} (hsize : off + diskSize < 2 ^ 64)
    (h : (f.sealed off).Layout off) : Emits (f.finalize off) off [] (f.sealed off) := by
  have hdisk : diskSize = 76 := rfl
  refine .get fun w hw ho => ?_
  have hlen : (w.bytes.length == off) = true := beq_iff_eq.mpr (by rw [← hw, ho])
  refine .guard hlen (.guard (isBlockAligned_iff.mpr h.footer) (.guard hlen (.guard (decide_eq_true (by omega)) ?_)))
  exact .lift (validate_sealed hsize h) (emits_pure _ _)

/-- A footer that describes the file in front of it is written. -/
theorem emits_write {f : FileFooterSection} {off : Nat} (hsize : off + diskSize < 2 ^ 64)
    (h : (f.sealed off).Layout off) : Emits f.write off (f.sealed off).encode (f.sealed off) := by
  have hroom : diskSize ≤ BLOCK_SIZE - off % BLOCK_SIZE := by
    rw [h.footer]
    decide
  have hfields := (writeFields_fitting (f.sealed off)).emits_edge h.footer (by rw [length_encode]; decide)
  refine .get fun w hw ho => ?_
  rw [ho]
  refine (emits_finalize hsize h).then ((emits_fitsHere hroom).then (hfields.last (emits_pure _ _)))

end

end FileFooterSection

end Kvdb
