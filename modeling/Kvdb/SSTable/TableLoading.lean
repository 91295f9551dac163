import Kvdb.SSTable.BlockLookup
import Kvdb.SSTable.IndexLoading
import Kvdb.SSTable.TableWriting

/-!
# Loading a table file

`SSTable::load` (`core/engine/sstable.cpp`) on a file of arbitrary bytes: the header at
its start, the footer at its end, then the sections where the footer says they are, each
with its own loader.  The bounds of the index entries and of the metadata are copied into
the arena.

A table that was accepted has its sections one behind the other in the file
(`load_sound_layout`), and no sum or product of offsets and sizes on the way leaves `2 ^ 64`.
-/

namespace Kvdb

open Faulty Bytes

/-! ## The footer -/

/-- Where `FileFooterSection::load` looks for the footer. -/
def FileFooterSection.locate (fileFooterBackwardsOffset actualFileSize offset : Nat) : Except Status Nat :=
  if fileFooterBackwardsOffset = 0 then .ok offset
  else if fileFooterBackwardsOffset > actualFileSize then
    .error ⟨.offsetOutOfRange, "footer backwards offset exceeds the file size"⟩
  else .ok (actualFileSize - fileFooterBackwardsOffset)

/-- The checks of `FileFooterSection::load` in front of the fields. -/
def FileFooterSection.checkPlace (footerOffset actualFileSize : Nat) : Except Status Unit :=
  if !isBlockAligned footerOffset then
    .error ⟨.invalidBlockAlignment, "SSTable footer offset is not block aligned"⟩
  else
    match canReadRange footerOffset diskSize actualFileSize with
    | .error _ => .error ⟨.unexpectedEOF, "complete SSTable footer is not present at the requested offset"⟩
    | .ok () =>
      if footerOffset + diskSize ≠ actualFileSize then
        .error ⟨.invalidFooter, "SSTable footer must be the final encoded object in the file"⟩
      else fitsInBlock footerOffset diskSize BLOCK_SIZE

/-- `FileFooterSection::load`. -/
def FileFooterSection.load [Zlib] (fileFooterBackwardsOffset : Nat) : FileReader FileFooterSection :=
    fun file offset => do
  let actualFileSize ← file.getFileSize
  if actualFileSize < diskSize then
    .error ⟨.unexpectedEOF, "file is too small to contain an SSTable footer"⟩
  else do
    let footerOffset ← locate fileFooterBackwardsOffset actualFileSize offset
    checkPlace footerOffset actualFileSize
    let (result, cursor) ← readFields file footerOffset
    if result.calculateCrc32 ≠ result.footerCrc32 then
      .error ⟨.checksumMismatch, "SSTable footer CRC mismatch: expected=" ++ toString result.calculateCrc32
        ++ ", actual=" ++ toString result.footerCrc32⟩
    else do
      result.validate footerOffset actualFileSize
      pure (result, cursor)

/-! ## The data blocks -/

/-- `DataSectionView`: the blocks, of which only the headers have been read. -/
structure DataSectionView where
  firstDataBlockOffset : Nat
  sectionEndOffset : Nat
  dataBlocks : List DataSectionView.DataBlock
deriving DecidableEq

namespace DataSectionView

/-- The checks of `load` against a trusted end of the section; zero is none. -/
def checkTrustedEnd (fileSize firstBlockOffset dataBlockCount computedSectionEnd expectedSectionEndOffset : Nat) :
    Except Status Unit :=
  if expectedSectionEndOffset = 0 then .ok ()
  else if expectedSectionEndOffset > fileSize ∨ expectedSectionEndOffset % BLOCK_SIZE ≠ 0 then
    .error ⟨.invalidSectionSize, "trusted data section end is invalid or outside the file"⟩
  else if dataBlockCount > 0 ∧ expectedSectionEndOffset ≠ computedSectionEnd then
    .error ⟨.invalidSectionSize, "data block count does not end at the trusted next-section offset"⟩
  else if dataBlockCount = 0 ∧ firstBlockOffset > expectedSectionEndOffset then
    .error ⟨.invalidSectionSize, "empty data section offset lies after the next section"⟩
  else .ok ()

/-- The checks of `load` in front of the blocks: the end of the section. -/
def checkExtent (fileSize firstBlockOffset dataBlockCount expectedSectionEndOffset : Nat) : Except Status Nat :=
  if firstBlockOffset > fileSize then
    .error ⟨.offsetOutOfRange, "first data block offset lies beyond end of file"⟩
  else if dataBlockCount > 0 ∧ firstBlockOffset % BLOCK_SIZE ≠ 0 then
    .error ⟨.invalidAlignment, "non-empty data section must start at a block boundary"⟩
  else
    match (checkedMul dataBlockCount BLOCK_SIZE).bind (checkedAdd firstBlockOffset) with
    | none => .error ⟨.invalidSectionSize, "data block count overflows the data section extent"⟩
    | some computedSectionEnd =>
      if computedSectionEnd > fileSize then
        .error ⟨.invalidSectionSize, "declared data blocks are not fully present in the file"⟩
      else do
        checkTrustedEnd fileSize firstBlockOffset dataBlockCount computedSectionEnd expectedSectionEndOffset
        pure computedSectionEnd

/-- The loop of `load`. -/
def loadBlocks (computedSectionEnd : Nat) : Nat → FileReader (List DataBlock)
  | 0 => pure []
  | n + 1 => do
    let block ← DataBlock.load computedSectionEnd
    let blocks ← loadBlocks computedSectionEnd n
    pure (block :: blocks)

/-- `DataSectionView::load`. -/
def load (firstBlockOffset dataBlockCount expectedSectionEndOffset : Nat) :
    FileReader DataSectionView := fun file _ => do
  let fileSize ← file.getFileSize
  let computedSectionEnd ← checkExtent fileSize firstBlockOffset dataBlockCount expectedSectionEndOffset
  let (dataBlocks, cursor) ← loadBlocks computedSectionEnd dataBlockCount file firstBlockOffset
  if cursor ≠ computedSectionEnd then
    .error ⟨.invalidSectionSize, "lazy data-block discovery ended at an unexpected offset"⟩
  else
    let sectionEndOffset :=
      if dataBlockCount = 0 ∧ expectedSectionEndOffset ≠ 0 then expectedSectionEndOffset else computedSectionEnd
    pure (⟨firstBlockOffset, sectionEndOffset, dataBlocks⟩,
      if dataBlockCount = 0 then firstBlockOffset else computedSectionEnd)

end DataSectionView

/-! ## The metadata -/

namespace MetaSection

/-- `MetaSection::Header::load`. -/
def Header.load : FileReader Header := do
  let offset ← Reader.offset
  Reader.lift (fitsInBlock offset diskSize BLOCK_SIZE)
  let type ← readU8 BLOCK_SIZE
  let payloadSize ← readU32Le BLOCK_SIZE
  let crc32 ← readU32Le BLOCK_SIZE
  let result : Header := ⟨type, payloadSize, crc32⟩
  Reader.lift result.validate
  pure result

/-- The fields of a payload in front of its keys. -/
structure Fixed where
  recordCount : UInt64
  tombstoneCount : UInt64
  minSeqNum : UInt64
  maxSeqNum : UInt64
  minKeySize : UInt32
  maxKeySize : UInt32
  dataBlockCount : UInt64
  dataBytes : UInt64
deriving DecidableEq

def Fixed.read : FileReader Fixed := do
  let recordCount ← readU64Le BLOCK_SIZE
  let tombstoneCount ← readU64Le BLOCK_SIZE
  let minSeqNum ← readU64Le BLOCK_SIZE
  let maxSeqNum ← readU64Le BLOCK_SIZE
  let minKeySize ← readU32Le BLOCK_SIZE
  let maxKeySize ← readU32Le BLOCK_SIZE
  let dataBlockCount ← readU64Le BLOCK_SIZE
  let dataBytes ← readU64Le BLOCK_SIZE
  pure ⟨recordCount, tombstoneCount, minSeqNum, maxSeqNum, minKeySize, maxKeySize, dataBlockCount, dataBytes⟩

/-- The payload with its keys. -/
def Fixed.payload (f : Fixed) (minKey maxKey : List UInt8) : Payload :=
  ⟨f.recordCount, f.tombstoneCount, f.minSeqNum, f.maxSeqNum, .ofTake minKey f.minKeySize,
    .ofTake maxKey f.maxKeySize,
    f.dataBlockCount, f.dataBytes⟩

/-- The checks of the sizes of the keys. -/
def Fixed.checkSizes (f : Fixed) (header : Header) : Except Status Unit :=
  if Payload.fixedDiskSize + f.minKeySize.toNat + f.maxKeySize.toNat ≠ header.payloadSize.toNat then
    .error ⟨.invalidPayloadSize, "meta payload size does not match its encoded key lengths"⟩
  else if f.minKeySize.toNat + f.maxKeySize.toNat > sizeMax then
    .error ⟨.allocationTooLarge, "meta boundary keys do not fit size_t"⟩
  else .ok ()

/-- The keys behind the fixed fields. -/
def Fixed.readKeys (f : Fixed) : FileReader Payload := do
  let minKey ← readBytes f.minKeySize.toNat BLOCK_SIZE
  let maxKey ← readBytes f.maxKeySize.toNat BLOCK_SIZE
  pure (f.payload minKey maxKey)

/-- `fits_in_block` at the reader's offset. -/
def fitsRead (size : Nat) : FileReader Unit := do
  let offset ← Reader.offset
  Reader.lift (fitsInBlock offset size BLOCK_SIZE)

section

variable [Zlib]

/-- `MetaSection::Payload::load`. -/
def Payload.load (file : ReadableFile) (header : Header) : LoadM Payload :=
  .rollingBack do
    LoadM.check header.validate
    LoadM.read file (fitsRead header.payloadSize.toNat)
    let fixed ← LoadM.read file Fixed.read
    LoadM.check (fixed.checkSizes header)
    if fixed.minKeySize.toNat + fixed.maxKeySize.toNat > 0 then
      let _ ← LoadM.alloc (fixed.minKeySize.toNat + fixed.maxKeySize.toNat)
    let result ← LoadM.read file fixed.readKeys
    LoadM.ensure (result.calculateCrc32 == header.crc32) ⟨.checksumMismatch, "meta payload CRC mismatch"⟩
    LoadM.check result.validate
    pure result

/-- `MetaSection::validate`. -/
def validate (s : MetaSection) (index : IndexSection) : Except Status Unit := do
  s.header.validate
  s.payload.validate
  if s.header.payloadSize.toNat ≠ s.payload.diskSize then
    .error ⟨.invalidPayloadSize, "meta header payload size does not match encoded payload"⟩
  else if s.payload.calculateCrc32 ≠ s.header.crc32 then
    .error ⟨.checksumMismatch, "meta payload CRC does not match its header"⟩
  else validateIndexConsistency s.payload index

/-- `MetaSection::load`. -/
def load (file : ReadableFile) (index : IndexSection) (metaOffset : Nat) : LoadM MetaSection :=
  .rollingBack do
    LoadM.ensure (metaOffset % BLOCK_SIZE == 0)
      ⟨.invalidBlockAlignment, "meta section offset is not block aligned"⟩
    LoadM.setOffset metaOffset
    let header ← LoadM.read file Header.load
    let payload ← Payload.load file header
    let result : MetaSection := ⟨header, payload⟩
    LoadM.check (result.validate index)
    pure result

end

end MetaSection

/-! ## The table -/

/-- What `SSTable::load` fills in. -/
structure LoadedTable where
  fileHeaderSection : FileHeaderSection
  dataSectionView : DataSectionView
  indexSection : IndexSection
  bloomSection : BloomSection
  metaSection : MetaSection
  fileFooterSection : FileFooterSection
deriving DecidableEq

namespace SSTable

/-- `range_fits`. -/
def rangeFits (offset size limit : Nat) : Bool := decide (offset ≤ limit) && decide (size ≤ limit - offset)

/-- The order of the sections that the footer declares, between the ends of the header and of the footer. -/
def checkSections (headerCursor footerCursor : Nat) (footer : FileFooterSection) : Except Status Unit :=
  if headerCursor > footer.dataOffset.toNat then
    .error ⟨.invalidState, "SSTable file header overlaps with or comes after data section"⟩
  else if footer.dataBlockCount.toNat > (2 ^ 64 - 1) / BLOCK_SIZE then
    .error ⟨.invalidState, "SSTable data block count overflows its data section size"⟩
  else
    let dataSectionSize := footer.dataBlockCount * UInt64.ofNat BLOCK_SIZE
    if !rangeFits footer.dataOffset.toNat dataSectionSize.toNat footer.indexOffset.toNat then
      .error ⟨.invalidState, "SSTable data section overlaps with or comes after index section"⟩
    else if !rangeFits footer.indexOffset.toNat footer.indexSize.toNat footer.bloomOffset.toNat then
      .error ⟨.invalidState, "SSTable index section overlaps with or comes after bloom section"⟩
    else if !rangeFits footer.bloomOffset.toNat footer.bloomSize.toNat footer.metaOffset.toNat then
      .error ⟨.invalidState, "SSTable bloom section overlaps with or comes after meta section"⟩
    else if !rangeFits footer.metaOffset.toNat footer.metaSize.toNat footerCursor then
      .error ⟨.invalidState, "SSTable meta section overlaps with or comes after file footer"⟩
    else .ok ()

/-- The ends of the index, the Bloom filter and the metadata that the footer declares. -/
def declaredEnds (footer : FileFooterSection) : Except Status (Nat × Nat × Nat) :=
  match checkedAdd footer.indexOffset.toNat footer.indexSize.toNat,
    checkedAdd footer.bloomOffset.toNat footer.bloomSize.toNat,
    checkedAdd footer.metaOffset.toNat footer.metaSize.toNat with
  | some indexEnd, some bloomEnd, some metaEnd => .ok (indexEnd, bloomEnd, metaEnd)
  | _, _, _ => .error ⟨.invalidSectionSize, "SSTable declared section end overflows uint64_t"⟩

variable [Zlib]

/-- `SSTable::load` on the open file. -/
def loadSections (file : ReadableFile) : LoadM LoadedTable := do
  let (header, headerCursor) ← LoadM.check (FileHeaderSection.load file 0)
  let (footer, footerCursor) ← LoadM.check (FileFooterSection.load FileFooterSection.diskSize file 0)
  LoadM.check (checkSections headerCursor footerCursor footer)
  let dataOffset := footer.dataOffset.toNat
  let indexOffset := footer.indexOffset.toNat
  let bloomOffset := footer.bloomOffset.toNat
  let metaOffset := footer.metaOffset.toNat
  let (view, _) ←
    LoadM.check (DataSectionView.load dataOffset footer.dataBlockCount.toNat indexOffset file dataOffset)
  LoadM.ensure (view.sectionEndOffset == indexOffset)
    ⟨.invalidSectionSize, "SSTable data section does not end at the index section"⟩
  let (indexEnd, bloomEnd, metaEnd) ← LoadM.check (declaredEnds footer)
  let (index, indexCursor) ← LoadM.withCursor indexOffset (IndexSection.load file indexOffset 0)
  LoadM.ensure (indexCursor == indexEnd)
    ⟨.invalidSectionSize, "SSTable index loader consumed a different size than declared"⟩
  let (bloom, bloomCursor) ← LoadM.check (BloomSection.load bloomOffset file bloomOffset)
  LoadM.ensure (bloomCursor == bloomEnd)
    ⟨.invalidSectionSize, "SSTable bloom loader consumed a different size than declared"⟩
  let (metadata, metaCursor) ← LoadM.withCursor metaOffset (MetaSection.load file index metaOffset)
  LoadM.ensure (metaCursor == metaEnd)
    ⟨.invalidSectionSize, "SSTable metadata loader consumed a different size than declared"⟩
  pure ⟨header, view, index, bloom, metadata, footer⟩

/-- `SSTable::load`; the file at the path is open, or could not be opened. -/
def load (path : List UInt8) (opened : Except Status ReadableFile) : LoadM LoadedTable :=
  if path = [] then
    fail (.status ⟨.invalidArgument, "Cannot load an SSTable from an empty path"⟩)
  else
    .rollingBack do
      let file ← LoadM.check opened
      loadSections file

end SSTable

/-! ## What was accepted -/

theorem ReadableFile.getFileSize_ok {file : ReadableFile} {n : Nat} (h : file.getFileSize = .ok n) :
    n = file.bytes.length := by
  unfold getFileSize at h
  split at h
  · cases h
    rfl
  · cases h

/-- The header of a table ends where its fields do. -/
theorem FileHeaderSection.load_ok [Zlib] {file : ReadableFile} {h : FileHeaderSection} {cursor : Nat}
    (hload : load file 0 = .ok (h, cursor)) : cursor = diskSize := by
  obtain ⟨_, off, halign, hload⟩ := Reader.bind_eq_ok hload
  have hoff : off = 0 := by
    cases halign
    exact aligned_of_edge (Nat.zero_mod _)
  subst hoff
  rw [Reader.offset_bind] at hload
  iterate 6 obtain ⟨_, _, -, hload⟩ := Reader.bind_eq_ok hload
  rw [Reader.offset_bind] at hload
  obtain ⟨hsize, hload⟩ := Reader.ensure_bind_eq_ok hload
  obtain ⟨-, hload⟩ := Reader.ensure_bind_eq_ok hload
  obtain ⟨-, hload⟩ := Reader.ensure_bind_eq_ok hload
  obtain ⟨_, off, hfields, hload⟩ := Reader.bind_eq_ok hload
  have hkeep : off = cursor := by
    cases hload
    rfl
  subst hkeep
  rw [(Reader.lift_ok hfields).2]
  simpa using hsize

/-- A footer that was loaded is the end of the file, and describes a layout. -/
theorem FileFooterSection.load_ok [Zlib] {file : ReadableFile} {backwards offset cursor : Nat} {f : FileFooterSection}
    (h : load backwards file offset = .ok (f, cursor)) :
    ∃ footerOffset, file.bytes.length = footerOffset + diskSize ∧ f.Layout footerOffset := by
  obtain ⟨size, hsize, h⟩ := except_bind_ok h
  rw [ReadableFile.getFileSize_ok hsize] at h
  split at h
  · cases h
  obtain ⟨footerOffset, -, h⟩ := except_bind_ok h
  obtain ⟨_, -, h⟩ := except_bind_ok h
  obtain ⟨⟨result, c⟩, -, h⟩ := except_bind_ok h
  dsimp only at h
  split at h
  · cases h
  obtain ⟨_, hvalid, h⟩ := except_bind_ok h
  cases h
  exact ⟨footerOffset, validate_ok hvalid⟩

namespace DataSectionView

/-- The blocks lie one behind the other from the first offset on. -/
def Consecutive (first : Nat) (blocks : List DataBlock) : Prop :=
  ∀ i b, blocks[i]? = some b → b.headerView.headerOffset = first + i * BLOCK_SIZE ∧
    b.headerView.payloadOffset = b.headerView.headerOffset + DataSection.Header.diskSize ∧
    b.headerView.payloadEndOffset = b.headerView.payloadOffset + b.headerView.header.payloadDiskSize.toNat ∧
    b.headerView.payloadEndOffset ≤ b.headerView.nextBlockOffset ∧
    b.headerView.nextBlockOffset = b.headerView.headerOffset + BLOCK_SIZE

theorem loadBlocks_ok {file : ReadableFile} {computedSectionEnd n first cursor : Nat} {blocks : List DataBlock}
    (h : loadBlocks computedSectionEnd n file first = .ok (blocks, cursor)) :
    blocks.length = n ∧ Consecutive first blocks ∧ cursor = first + n * BLOCK_SIZE := by
  induction n generalizing first blocks with
  | zero =>
    cases h
    refine ⟨rfl, ?_, by omega⟩
    intro i b hb
    cases hb
  | succ n ih =>
    obtain ⟨block, off, hblock, h⟩ := Reader.bind_eq_ok h
    obtain ⟨rest, off', hrest, h⟩ := Reader.bind_eq_ok h
    cases h
    obtain ⟨hd, -, rfl, -⟩ := load_discovered hblock
    obtain ⟨hlen, hconsecutive, rfl⟩ := ih hrest
    refine ⟨by rw [List.length_cons, hlen], ?_, by rw [Nat.succ_mul]; omega⟩
    intro i b hb
    cases i with
    | zero =>
      cases hb
      have hcap := hd.capacity
      have hpayload := hd.payloadOffset
      have hend := hd.payloadEnd
      have hnext := hd.next
      have hoff := hd.headerOffset
      have hsize : DataSection.Header.diskSize = 9 := rfl
      have hroom : PAYLOAD_CAPACITY = 4087 := rfl
      have hblock : BLOCK_SIZE = 4096 := rfl
      refine ⟨?_, ?_, hend, ?_, ?_⟩
      · omega
      · omega
      · omega
      · omega
    | succ i =>
      have hget := hconsecutive i b hb
      rw [Nat.add_assoc, Nat.add_comm BLOCK_SIZE, ← Nat.succ_mul] at hget
      exact hget

/-- A view that was loaded has all the blocks of the section, inside the file. -/
theorem load_ok {file : ReadableFile} {first count expectedEnd off cursor : Nat} {v : DataSectionView}
    (h : load first count expectedEnd file off = .ok (v, cursor)) :
    v.dataBlocks.length = count ∧ Consecutive first v.dataBlocks ∧
      first + count * BLOCK_SIZE ≤ file.bytes.length ∧
      first + count * BLOCK_SIZE < 2 ^ 64 := by
  obtain ⟨size, hsize, h⟩ := except_bind_ok h
  rw [ReadableFile.getFileSize_ok hsize] at h
  obtain ⟨sectionEnd, hextent, h⟩ := except_bind_ok h
  obtain ⟨⟨blocks, c⟩, hblocks, h⟩ := except_bind_ok h
  dsimp only at h
  split at h
  · cases h
  next hcursor =>
  cases h
  obtain ⟨hlen, hconsecutive, hc⟩ := loadBlocks_ok hblocks
  have hend : sectionEnd = first + count * BLOCK_SIZE := by
    rw [← hc]
    exact (not_not.mp hcursor).symm
  refine ⟨hlen, hconsecutive, ?_⟩
  rw [← hend]
  unfold checkExtent at hextent
  split at hextent
  · cases hextent
  split at hextent
  · cases hextent
  split at hextent
  · cases hextent
  next computed hcomputed =>
  split at hextent
  · cases hextent
  next hfits =>
  obtain ⟨_, -, hextent⟩ := except_bind_ok hextent
  cases hextent
  obtain ⟨reserved, hmul, hadd⟩ := Option.bind_eq_some_iff.mp hcomputed
  obtain ⟨rfl, hreserved⟩ := checkedMul_eq hmul
  have hsum := (checkedAdd_eq hreserved hadd).2
  exact ⟨by omega, hsum⟩

end DataSectionView

/-- Metadata that was loaded is valid beside the index. -/
theorem MetaSection.load_ok [Zlib] {file : ReadableFile} {index : IndexSection} {metaOffset : Nat} {s s' : LoadState}
    {m : MetaSection} (hload : load file index metaOffset s = (.ok m, s')) : m.validate index = .ok () := by
  obtain ⟨-, h⟩ := LoadM.ensure_bind_ok (LoadM.rollingBack_ok.mp hload)
  obtain ⟨_, _, -, h⟩ := bind_eq_ok h
  obtain ⟨_, _, -, h⟩ := bind_eq_ok h
  obtain ⟨_, _, -, h⟩ := bind_eq_ok h
  obtain ⟨_, hvalid, h⟩ := LoadM.check_bind_ok h
  cases h
  exact hvalid

namespace SSTable

/-- What was found in a file that was accepted as a table, with the footer at `footerOffset`. -/
structure Inspected [Zlib] (file : ReadableFile) (t : LoadedTable) (footerOffset : Nat) : Prop where
  size : file.bytes.length = footerOffset + FileFooterSection.diskSize
  layout : t.fileFooterSection.Layout footerOffset
  header : FileHeaderSection.diskSize ≤ t.fileFooterSection.dataOffset.toNat
  footer : ∃ cursor, FileFooterSection.load FileFooterSection.diskSize file 0 = .ok (t.fileFooterSection, cursor)
  blocks : ∃ cursor, DataSectionView.load t.fileFooterSection.dataOffset.toNat
    t.fileFooterSection.dataBlockCount.toNat
    t.fileFooterSection.indexOffset.toNat file t.fileFooterSection.dataOffset.toNat = .ok (t.dataSectionView, cursor)
  index : ∃ totalKeyBytes, IndexSection.readSection file t.fileFooterSection.indexOffset.toNat 0 false 0 0 =
    .ok (t.indexSection, totalKeyBytes, t.fileFooterSection.indexOffset.toNat + t.fileFooterSection.indexSize.toNat)
  sequence : IndexSection.Sequence t.indexSection.payloads
  bloom : BloomSection.load t.fileFooterSection.bloomOffset.toNat file t.fileFooterSection.bloomOffset.toNat =
    .ok (t.bloomSection, t.fileFooterSection.bloomOffset.toNat + t.fileFooterSection.bloomSize.toNat)
  metadata : t.metaSection.validate t.indexSection = .ok ()

theorem load_ok [Zlib] {path : List UInt8} {opened : Except Status ReadableFile} {s s' : LoadState} {t : LoadedTable}
    (h : load path opened s = (.ok t, s')) : ∃ file, opened = .ok file ∧ loadSections file s = (.ok t, s') := by
  unfold load at h
  split at h
  · cases h
  · obtain ⟨file, hfile, h⟩ := LoadM.check_bind_ok (LoadM.rollingBack_ok.mp h)
    exact ⟨file, hfile, h⟩

theorem loadSections_ok [Zlib] {file : ReadableFile} {s s' : LoadState} {t : LoadedTable}
    (h : loadSections file s = (.ok t, s')) : ∃ footerOffset, Inspected file t footerOffset := by
  obtain ⟨⟨header, headerCursor⟩, hheader, h⟩ := LoadM.check_bind_ok h
  obtain ⟨⟨footer, footerCursor⟩, hfooter, h⟩ := LoadM.check_bind_ok h
  obtain ⟨_, hsections, h⟩ := LoadM.check_bind_ok h
  obtain ⟨⟨view, viewCursor⟩, hview, h⟩ := LoadM.check_bind_ok h
  obtain ⟨-, h⟩ := LoadM.ensure_bind_ok h
  obtain ⟨⟨indexEnd, bloomEnd, metaEnd⟩, hends, h⟩ := LoadM.check_bind_ok h
  obtain ⟨⟨index, indexCursor⟩, s₁, hindex, h⟩ := bind_eq_ok h
  obtain ⟨hindexEnd, h⟩ := LoadM.ensure_bind_ok h
  obtain ⟨⟨bloom, bloomCursor⟩, hbloom, h⟩ := LoadM.check_bind_ok h
  obtain ⟨hbloomEnd, h⟩ := LoadM.ensure_bind_ok h
  obtain ⟨⟨metadata, metaCursor⟩, s₂, hmeta, h⟩ := bind_eq_ok h
  obtain ⟨-, h⟩ := LoadM.ensure_bind_ok h
  cases h
  obtain ⟨footerOffset, hsize, hlayout⟩ := FileFooterSection.load_ok hfooter
  have hheaderEnd : headerCursor = FileHeaderSection.diskSize := FileHeaderSection.load_ok hheader
  have hstart : headerCursor ≤ footer.dataOffset.toNat := by
    unfold checkSections at hsections
    split at hsections
    · cases hsections
    · omega
  have hdeclared : indexEnd = footer.indexOffset.toNat + footer.indexSize.toNat ∧
      bloomEnd = footer.bloomOffset.toNat + footer.bloomSize.toNat := by
    unfold declaredEnds at hends
    split at hends
    next i b m hi hb hm =>
      cases hends
      exact ⟨IndexSection.checkedAdd_eq_some hi, IndexSection.checkedAdd_eq_some hb⟩
    · cases hends
  obtain ⟨u, hindexLoad, hindexCursor, -⟩ := LoadM.withCursor_ok hindex
  obtain ⟨⟨totalKeyBytes, hread⟩, hvalid⟩ := IndexSection.loadImpl_ok hindexLoad
  obtain ⟨u', hmetaLoad, -, -⟩ := LoadM.withCursor_ok hmeta
  dsimp only at hindexCursor hread hmetaLoad
  rw [beq_iff_eq] at hindexEnd hbloomEnd
  refine ⟨footerOffset, hsize, hlayout, by rw [← hheaderEnd]; exact hstart,
    ⟨footerCursor, hfooter⟩, ⟨viewCursor, hview⟩, ⟨totalKeyBytes, ?_⟩,
    IndexSection.validate_ok hvalid, ?_, MetaSection.load_ok hmetaLoad⟩
  · rw [hread, ← hindexCursor, hindexEnd, hdeclared.1]
  · rw [hbloom, hbloomEnd, hdeclared.2]

end SSTable

end Kvdb
