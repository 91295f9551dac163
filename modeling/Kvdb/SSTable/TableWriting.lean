import Kvdb.SSTable.FileSections
import Kvdb.SSTable.MetaSection

/-!
# Writing a table file

`SSTable::write` (`core/engine/sstable.cpp`): the header, the data blocks, the index,
the Bloom filter, the metadata and the footer, each behind the alignment to the next
block, and then the publication of the file under its final name.

    header | block | block | … | index | bloom | metadata | footer

`Written` says what a finished write leaves (`write_ok`), byte for byte.
-/

namespace Kvdb

open Faulty Bytes

/-- `SSTable`, as far as writing is concerned. -/
inductive SSTable.State where
  | empty
  | building
  | loaded
  | published
deriving DecidableEq

structure SSTable where
  state : SSTable.State
  path : List UInt8
  finalPath : List UInt8
  fileHeaderSection : FileHeaderSection
  dataBlocks : List (List DataSection.Payload)
  indexSection : IndexSection
  bloomSection : BloomSection
  metaSection : MetaSection
  fileFooterSection : FileFooterSection
deriving DecidableEq

/-- How the system calls end that are not appends to the file, and the normal form of paths. -/
structure TableCalls where
  lexicallyNormal : List UInt8 → List UInt8
  removeStale : Except Status Unit
  openWritableFile : Except Status Unit
  sync : Except Status Unit
  close : Except Status Unit
  durableRename : Except Status Unit
  syncParentDirectory : Except Status Unit

/-- Behind the header of a table there is one block edge. -/
theorem aligned_headerSize : aligned FileHeaderSection.diskSize = 4096 := by
  have hedge := @aligned_add 0 FileHeaderSection.diskSize (by decide) (by decide) (by decide)
  rw [Nat.zero_add, Nat.zero_add] at hedge
  exact hedge

namespace SSTable

/-- `fits_u32`. -/
def fitsU32 (value : Nat) : Bool := decide (value ≤ 2 ^ 32 - 1)

/-- The checks in front of the first system call. -/
def checkWritable (calls : TableCalls) (t : SSTable) : Except Status Unit :=
  if t.state ≠ .building then
    .error ⟨.invalidState, "Cannot write a loaded, published, or uninitialized SSTable"⟩
  else if t.path = [] then .error ⟨.invalidState, "Cannot write SSTable: temporary path is empty"⟩
  else if t.finalPath = [] then .error ⟨.invalidState, "Cannot write SSTable: final path is empty"⟩
  else if calls.lexicallyNormal t.path = calls.lexicallyNormal t.finalPath then
    .error ⟨.invalidArgument, "SSTable temporary path and final path must be different"⟩
  else .ok ()

/-- `SSTable::fsync`. -/
def fsync (calls : TableCalls) (t : SSTable) : Except Status SSTable := do
  calls.sync
  calls.close
  calls.durableRename
  calls.syncParentDirectory
  pure { t with state := .published, path := t.finalPath }

variable [Zlib]

/-- The footer with the places and sizes of the sections. -/
def directory (f : FileFooterSection) (dataOffset dataBlockCount : Nat) (index : IndexSection × Nat)
    (bloom : BloomSection × Nat) (metadata : MetaSection × Nat) : FileFooterSection :=
  { f with
    dataOffset := UInt64.ofNat dataOffset
    dataBlockCount := UInt64.ofNat dataBlockCount
    indexOffset := UInt64.ofNat index.2
    indexSize := UInt32.ofNat index.1.diskSize
    bloomOffset := UInt64.ofNat bloom.2
    bloomSize := UInt32.ofNat BloomSection.diskSize
    metaOffset := UInt64.ofNat metadata.2
    metaSize := UInt32.ofNat metadata.1.diskSize }

/-- The part of `SSTable::write` behind the data blocks: the sections derived from them and the footer. -/
def writeSections (t : SSTable) (header : FileHeaderSection) (index : IndexSection) (dataOffset : Nat) :
    WriterM Status SSTable := do
  let bloomSection ← lift (BloomSection.rebuild t.dataBlocks)
  let metaSection ← lift (MetaSection.rebuild t.dataBlocks index)
  let index ← index.write
  let bloom ← bloomSection.write
  let metadata ← metaSection.write
  ensure (fitsU32 index.1.diskSize && fitsU32 BloomSection.diskSize && fitsU32 metadata.1.diskSize)
    ⟨.invalidSectionSize, "SSTable section size cannot be represented in the footer"⟩
  alignToBlockBoundary BLOCK_SIZE
  let w ← Faulty.get
  let footer ← (directory t.fileFooterSection dataOffset t.dataBlocks.length index bloom metadata).finalize w.offset
  let footer ← footer.write
  pure { t with
    fileHeaderSection := header
    indexSection := index.1
    bloomSection := bloom.1
    metaSection := metadata.1
    fileFooterSection := footer }

/-- `SSTable::write`, on the temporary file when it is open: the table with its derived sections. -/
def write (calls : TableCalls) (t : SSTable) : WriterM Status SSTable := do
  lift (checkWritable calls t)
  lift calls.removeStale
  lift calls.openWritableFile
  let header ← t.fileHeaderSection.write
  let (index, dataOffset) ← DataSection.write t.dataBlocks
  let written ← writeSections t header index dataOffset
  lift (fsync calls written)

/-! ## What is written -/

/-- Where the data blocks end. -/
def dataEnd (t : SSTable) : Nat :=
  FileHeaderSection.diskSize + (DataSection.blocksBytes FileHeaderSection.diskSize t.dataBlocks).length

def indexStart (t : SSTable) : Nat := aligned t.dataEnd

def bloomStart (t : SSTable) : Nat := aligned (t.indexStart + t.indexSection.diskSize)

def metaStart (t : SSTable) : Nat := aligned (t.bloomStart + BloomSection.diskSize)

def footerStart (t : SSTable) : Nat := aligned (t.metaStart + t.metaSection.diskSize)

/-- The bytes behind the data blocks. -/
def tailBytes (t : SSTable) : List UInt8 :=
  (alignment t.dataEnd ++ IndexSection.encode t.indexSection.payloads) ++
    ((alignment (t.indexStart + t.indexSection.diskSize) ++ BloomSection.encode t.bloomSection) ++
    ((alignment (t.bloomStart + BloomSection.diskSize) ++ MetaSection.encode t.metaSection.payload) ++
    (alignment (t.metaStart + t.metaSection.diskSize) ++ t.fileFooterSection.encode)))

/-- The bytes of a table file. -/
def image (t : SSTable) : List UInt8 :=
  t.fileHeaderSection.encode ++ (DataSection.blocksBytes FileHeaderSection.diskSize t.dataBlocks ++ t.tailBytes)

/-- What a finished write leaves of the table `t`: the table `t'`, whose sections are those of the data blocks and
whose footer describes the file. -/
structure Written (t t' : SSTable) : Prop where
  path : t'.path = t.finalPath
  header : t.fileHeaderSection.validateFields = .ok () ∧ t'.fileHeaderSection = t.fileHeaderSection.sealed
  blocks : t'.dataBlocks = t.dataBlocks
  packed : DataSection.Packed t.dataBlocks t.dataBlocks.flatten
  index : t'.indexSection =
    .ofPayloads (DataSection.blockEntries (aligned FileHeaderSection.diskSize) t.dataBlocks)
  sequence : IndexSection.Sequence t'.indexSection.payloads
  bloom : BloomSection.rebuild t.dataBlocks = .ok t'.bloomSection
  metadata : MetaSection.rebuild t.dataBlocks t'.indexSection = .ok t'.metaSection
  directory : ∃ f : FileFooterSection, t'.fileFooterSection = (SSTable.directory f
    (DataSection.sectionStart FileHeaderSection.diskSize t.dataBlocks) t.dataBlocks.length
    (t'.indexSection, t'.indexStart) (t'.bloomSection, t'.bloomStart) (t'.metaSection, t'.metaStart)).sealed
      t'.footerStart
  layout : t'.fileFooterSection.Layout t'.footerStart

theorem sealed_sealed (f : FileFooterSection) (off : Nat) : (f.sealed off).sealed off = f.sealed off := rfl

/-- What the part of `write` behind the data blocks leaves, when the blocks ended at `dataEnd`. -/
theorem writeSections_ok {t t' : SSTable} {header : FileHeaderSection} {es : List IndexSection.Payload}
    {dataOffset : Nat}
    {w w' : Writer Status} (hes : IndexSection.Sequence es) (hw : w.Synced) (ho : w.offset = t.dataEnd)
    (h : writeSections t header (.ofPayloads es) dataOffset w = (.ok t', w')) :
    t'.path = t.path ∧ t'.finalPath = t.finalPath ∧ t'.fileHeaderSection = header ∧
      t'.dataBlocks = t.dataBlocks ∧
      t'.indexSection = .ofPayloads es ∧ BloomSection.rebuild t.dataBlocks = .ok t'.bloomSection ∧
      MetaSection.rebuild t.dataBlocks t'.indexSection = .ok t'.metaSection ∧
      t'.fileFooterSection = (SSTable.directory t.fileFooterSection dataOffset t.dataBlocks.length
        (t'.indexSection, t'.indexStart) (t'.bloomSection, t'.bloomStart) (t'.metaSection, t'.metaStart)).sealed
          t'.footerStart ∧
      t'.fileFooterSection.Layout t'.footerStart ∧ w'.bytes = w.bytes ++ t'.tailBytes := by
  obtain ⟨bloomSection, hbloom, h⟩ := lift_bind_eq_ok h
  obtain ⟨metaSection, hmeta, h⟩ := lift_bind_eq_ok h
  obtain ⟨hbvalid, hbloomEq⟩ := BloomSection.rebuild_ok hbloom
  obtain ⟨-, -, hmetaEq, hmvalid, -, -⟩ := MetaSection.rebuild_ok hmeta
  obtain ⟨index, w₁, hindex, h⟩ := bind_eq_ok h
  obtain ⟨rfl, hw₁, ho₁, hb₁⟩ := (IndexSection.emits_write (s := .ofPayloads es) hes w.offset).ok_bytes
      hw rfl hindex
  obtain ⟨bloom, w₂, hbl, h⟩ := bind_eq_ok h
  obtain ⟨rfl, hw₂, ho₂, hb₂⟩ := (BloomSection.emits_write hbvalid w₁.offset).ok_bytes hw₁ rfl hbl
  obtain ⟨metadata, w₃, hme, h⟩ := bind_eq_ok h
  obtain ⟨rfl, hw₃, ho₃, hb₃⟩ := (MetaSection.emits_write hmvalid w₂.offset).ok_bytes hw₂ rfl hme
  obtain ⟨-, h⟩ := ensure_bind_eq_ok h
  obtain ⟨_, w₄, halign, h⟩ := bind_eq_ok h
  obtain ⟨-, hw₄, ho₄, hb₄⟩ := (emits_align w₃.offset).ok_bytes hw₃ rfl halign
  rw [bind_ok (get_apply w₄)] at h
  obtain ⟨footer, w₅, hfin, h⟩ := bind_eq_ok h
  obtain ⟨rfl, -, rfl, -⟩ := FileFooterSection.finalize_ok hfin
  obtain ⟨footer', w₆, hfoot, h⟩ := bind_eq_ok h
  obtain ⟨rfl, hlayout, hb₆⟩ := FileFooterSection.write_ok hw₄ hfoot
  cases h
  -- the places of the sections, one behind the other
  have h1 : w₁.offset = aligned t.dataEnd + (IndexSection.ofPayloads es).diskSize := by
    rw [ho₁, List.length_append, IndexSection.length_encode, ho, ← Nat.add_assoc]
    rfl
  have h2 : w₂.offset = aligned w₁.offset + BloomSection.diskSize := by
    rw [ho₂, List.length_append, BloomSection.length_encode, ← Nat.add_assoc]
    rfl
  have h3 : w₃.offset = aligned w₂.offset + (MetaSection.ofPayload metaSection.payload).diskSize := by
    rw [ho₃, List.length_append, MetaSection.length_encode, ← Nat.add_assoc]
    rfl
  have h4 : w₅.offset = aligned w₃.offset := ho₄
  rw [h1] at h2
  rw [h2] at h3
  rw [h3] at h4
  have hbytes := hb₆
  rw [hb₄, hb₃, hb₂, hb₁] at hbytes
  simp only [h4, h3, h2, h1, ho, sealed_sealed] at hlayout hbytes ⊢
  refine ⟨trivial, trivial, trivial, trivial, rfl, ?_, ?_, rfl, hlayout, ?_⟩
  · show _ = Except.ok (BloomSection.ofPayload bloomSection.payload)
    rw [← hbloomEq]
    exact hbloom
  · show _ = Except.ok (MetaSection.ofPayload metaSection.payload)
    rw [← hmetaEq]
    exact hmeta
  · rw [hbytes]
    simp only [tailBytes, List.append_assoc]
    rfl

omit [Zlib] in
theorem fsync_ok {calls : TableCalls} {t t' : SSTable} (h : fsync calls t = .ok t') :
    t' = { t with state := .published, path := t.finalPath } := by
  obtain ⟨_, -, h⟩ := except_bind_ok h
  obtain ⟨_, -, h⟩ := except_bind_ok h
  obtain ⟨_, -, h⟩ := except_bind_ok h
  obtain ⟨_, -, h⟩ := except_bind_ok h
  cases h
  rfl

/-- What a finished write leaves in a new file. -/
theorem write_ok {calls : TableCalls} {t t' : SSTable} {w w' : Writer Status} (hw : w.Synced) (ho : w.offset = 0)
    (h : write calls t w = (.ok t', w')) : Written t t' ∧ w'.bytes = t'.image := by
  obtain ⟨_, -, h⟩ := lift_bind_eq_ok h
  obtain ⟨_, -, h⟩ := lift_bind_eq_ok h
  obtain ⟨_, -, h⟩ := lift_bind_eq_ok h
  obtain ⟨header, w₁, hheader, h⟩ := bind_eq_ok h
  obtain ⟨_, hfields, -⟩ := lift_bind_eq_ok hheader
  obtain ⟨rfl, hw₁, ho₁, hb₁⟩ := (FileHeaderSection.emits_write hfields w.offset).ok_bytes hw rfl hheader
  have hempty : w.bytes = [] := List.eq_nil_of_length_eq_zero (by rw [← hw, ho])
  have hstart : alignment w.offset = [] := alignment_of_edge (by rw [ho]; rfl)
  rw [hstart, List.nil_append, FileHeaderSection.length_encode, ho, Nat.zero_add] at ho₁
  rw [hstart, List.nil_append, hempty, List.nil_append] at hb₁
  obtain ⟨⟨index, dataOffset⟩, w₂, hdata, h⟩ := bind_eq_ok h
  obtain ⟨hpacked, hseq⟩ := DataSection.write_ok hw₁ hdata
  obtain ⟨hvalue, hw₂, ho₂, hb₂⟩ := (DataSection.emits_write hpacked hseq).ok_bytes hw₁ rfl hdata
  cases hvalue
  obtain ⟨written, w₃, hsections, h⟩ := bind_eq_ok h
  rw [ho₁] at ho₂ hb₂ hseq hsections
  obtain ⟨hpath, hfinal, hhead, hblocks, hindex, hbloom, hmeta, hfooter, hlayout, hb₃⟩ :=
    writeSections_ok hseq hw₂ ho₂ hsections
  cases hfsync : fsync calls written with
  | error e =>
    rw [hfsync] at h
    cases h
  | ok final =>
    rw [hfsync] at h
    cases h
    have hend := fsync_ok hfsync
    subst hend
    refine ⟨⟨hfinal, ⟨hfields, hhead⟩, hblocks, hpacked, hindex, ?_, hbloom, hmeta, ⟨_, hfooter⟩,
      hlayout⟩, ?_⟩
    · show IndexSection.Sequence written.indexSection.payloads
      rw [hindex]
      exact hseq
    · show w'.bytes = written.fileHeaderSection.encode ++
        (DataSection.blocksBytes FileHeaderSection.diskSize written.dataBlocks ++ written.tailBytes)
      rw [hb₃, hb₂, hb₁, hhead, hblocks, List.append_assoc]

/-! ## The size of the file -/

theorem length_image (t : SSTable) : t.image.length = t.footerStart + FileFooterSection.diskSize := by
  have hdata : t.dataEnd = FileHeaderSection.diskSize +
      (DataSection.blocksBytes FileHeaderSection.diskSize t.dataBlocks).length := rfl
  have hindex : t.indexStart = t.dataEnd + (alignment t.dataEnd).length := rfl
  have hbloom : t.bloomStart = t.indexStart + t.indexSection.diskSize +
      (alignment (t.indexStart + t.indexSection.diskSize)).length := rfl
  have hmeta : t.metaStart = t.bloomStart + BloomSection.diskSize +
      (alignment (t.bloomStart + BloomSection.diskSize)).length := rfl
  have hfooter : t.footerStart = t.metaStart + t.metaSection.diskSize +
      (alignment (t.metaStart + t.metaSection.diskSize)).length := rfl
  have hindexSize : (IndexSection.encode t.indexSection.payloads).length = t.indexSection.diskSize :=
    IndexSection.length_encode _
  have hmetaSize : (MetaSection.encode t.metaSection.payload).length = t.metaSection.diskSize :=
    MetaSection.length_encode _
  simp only [image, tailBytes, List.length_append, FileHeaderSection.length_encode, BloomSection.length_encode,
    FileFooterSection.length_encode, hindexSize, hmetaSize]
  omega

theorem footerStart_lt (t : SSTable) : t.footerStart <
    t.dataEnd + t.indexSection.diskSize + BloomSection.diskSize + t.metaSection.diskSize + 4 * BLOCK_SIZE := by
  have h1 := length_alignment_lt t.dataEnd
  have h2 := length_alignment_lt (t.indexStart + t.indexSection.diskSize)
  have h3 := length_alignment_lt (t.bloomStart + BloomSection.diskSize)
  have h4 := length_alignment_lt (t.metaStart + t.metaSection.diskSize)
  have hindex : t.indexStart = t.dataEnd + (alignment t.dataEnd).length := rfl
  have hbloom : t.bloomStart = t.indexStart + t.indexSection.diskSize +
      (alignment (t.indexStart + t.indexSection.diskSize)).length := rfl
  have hmeta : t.metaStart = t.bloomStart + BloomSection.diskSize +
      (alignment (t.bloomStart + BloomSection.diskSize)).length := rfl
  have hfooter : t.footerStart = t.metaStart + t.metaSection.diskSize +
      (alignment (t.metaStart + t.metaSection.diskSize)).length := rfl
  omega

/-- The footer of a finished table holds the length of its file. -/
theorem Written.fileSize {t t' : SSTable} (h : Written t t') :
    t'.fileFooterSection.fileSize.toNat = t'.image.length := by
  rw [h.layout.size, length_image]

/-! ## Writing without faults -/

/-- The table with these sections and the footer that describes them. -/
def completed (t : SSTable) (header : FileHeaderSection) (index : IndexSection) (dataOffset : Nat) (b : BloomSection)
    (m : MetaSection) : SSTable :=
  let t₁ := { t with fileHeaderSection := header, indexSection := index, bloomSection := b, metaSection := m }
  { t₁ with
    fileFooterSection := (directory t.fileFooterSection dataOffset t.dataBlocks.length (index, t₁.indexStart)
      (b, t₁.bloomStart) (m, t₁.metaStart)).sealed t₁.footerStart }

/-- Sections that can be derived from the data blocks are written behind them. -/
theorem emits_writeSections {t : SSTable} {header : FileHeaderSection} {es : List IndexSection.Payload}
    {dataOffset : Nat}
    {b : BloomSection} {m : MetaSection} (hes : IndexSection.Sequence es)
      (hbloom : BloomSection.rebuild t.dataBlocks = .ok b)
    (hmeta : MetaSection.rebuild t.dataBlocks (.ofPayloads es) = .ok m)
    (hsize : (completed t header (.ofPayloads es) dataOffset b m).footerStart + FileFooterSection.diskSize < 2 ^ 64)
    (hlayout : (completed t header (.ofPayloads es) dataOffset b m).fileFooterSection.Layout
      (completed t header (.ofPayloads es) dataOffset b m).footerStart) :
    Emits (writeSections t header (.ofPayloads es) dataOffset) t.dataEnd
      (completed t header (.ofPayloads es) dataOffset b m).tailBytes
      (completed t header (.ofPayloads es) dataOffset b m) := by
  obtain ⟨hbvalid, hbloomEq⟩ := BloomSection.rebuild_ok hbloom
  obtain ⟨-, -, hmetaEq, hmvalid, -, -⟩ := MetaSection.rebuild_ok hmeta
  generalize hc : completed t header (.ofPayloads es) dataOffset b m = c at hsize hlayout ⊢
  have hcb : c.bloomSection = b := by rw [← hc]; rfl
  have hcm : c.metaSection = m := by rw [← hc]; rfl
  have hci : c.indexSection = .ofPayloads es := by rw [← hc]; rfl
  have hcd : c.dataEnd = t.dataEnd := by rw [← hc]; rfl
  have hfooter : c.fileFooterSection = (directory t.fileFooterSection dataOffset t.dataBlocks.length
      (.ofPayloads es, c.indexStart) (b, c.bloomStart) (m, c.metaStart)).sealed c.footerStart := by rw [← hc]; rfl
  -- the sections one behind the other, each from the place where the one in front ends
  have hindex : Emits (IndexSection.write (.ofPayloads es)) t.dataEnd
      (alignment c.dataEnd ++ IndexSection.encode c.indexSection.payloads) (.ofPayloads es, c.indexStart) := by
    rw [hci, indexStart, hcd]
    exact IndexSection.emits_write (s := .ofPayloads es) hes t.dataEnd
  have h1 : t.dataEnd + (alignment c.dataEnd ++ IndexSection.encode c.indexSection.payloads).length =
      c.indexStart + c.indexSection.diskSize := by
    rw [List.length_append, IndexSection.length_encode, ← Nat.add_assoc, ← hcd]
    rfl
  have hbl : Emits b.write (c.indexStart + c.indexSection.diskSize)
      (alignment (c.indexStart + c.indexSection.diskSize) ++ BloomSection.encode c.bloomSection) (b, c.bloomStart) := by
    have h := BloomSection.emits_write hbvalid (c.indexStart + c.indexSection.diskSize)
    rw [← hbloomEq] at h
    rw [hcb]
    exact h
  have h2 : c.indexStart + c.indexSection.diskSize + (alignment (c.indexStart + c.indexSection.diskSize) ++
      BloomSection.encode c.bloomSection).length = c.bloomStart + BloomSection.diskSize := by
    rw [List.length_append, BloomSection.length_encode, ← Nat.add_assoc]
    rfl
  have hme : Emits m.write (c.bloomStart + BloomSection.diskSize)
      (alignment (c.bloomStart + BloomSection.diskSize) ++ MetaSection.encode c.metaSection.payload)
        (m, c.metaStart) := by
    have h := MetaSection.emits_write hmvalid (c.bloomStart + BloomSection.diskSize)
    rw [← hmetaEq] at h
    rw [hcm]
    exact h
  have h3 : c.bloomStart + BloomSection.diskSize + (alignment (c.bloomStart + BloomSection.diskSize) ++
      MetaSection.encode c.metaSection.payload).length = c.metaStart + c.metaSection.diskSize := by
    rw [List.length_append, MetaSection.length_encode, ← Nat.add_assoc, hcm, ← hmetaEq, metaStart]
    rfl
  have hfits : (fitsU32 (IndexSection.ofPayloads es).diskSize && fitsU32 BloomSection.diskSize && fitsU32 m.diskSize) =
      true := by
    have hcap : IndexSection.kPayloadCapacity + IndexSection.Header.diskSize = 4096 := rfl
    have hblock : BLOCK_SIZE - MetaSection.Header.diskSize + MetaSection.Header.diskSize = 4096 := rfl
    have hbloomSize : BloomSection.diskSize = 153 := rfl
    have hi := hes.fits
    have hi' : (IndexSection.ofPayloads es).diskSize =
        IndexSection.Header.diskSize + (es.map IndexSection.Payload.diskSize).sum := rfl
    have hm := MetaSection.Payload.validate_size hmvalid
    have hm' : m.diskSize = MetaSection.Header.diskSize + m.payload.diskSize := rfl
    simp only [fitsU32, Bool.and_eq_true, decide_eq_true_eq]
    omega
  rw [hfooter] at hlayout
  have hfin := FileFooterSection.emits_finalize hsize hlayout
  have hwrite := FileFooterSection.emits_write (f := (directory t.fileFooterSection dataOffset t.dataBlocks.length
      (.ofPayloads es, c.indexStart) (b, c.bloomStart) (m, c.metaStart)).sealed c.footerStart) hsize hlayout
  rw [sealed_sealed, ← hfooter] at hwrite
  rw [← hfooter] at hfin
  rw [tailBytes]
  refine Emits.lift hbloom (Emits.lift hmeta (hindex.bind ?_))
  rw [h1]
  refine hbl.bind ?_
  rw [h2]
  refine hme.bind ?_
  rw [h3]
  refine .guard hfits ((emits_align _).bind (.get fun w hw ho => ?_))
  rw [show w.offset = c.footerStart from ho]
  refine hfin.then (hwrite.last ?_)
  subst hc
  exact emits_pure _ _

/-- The footer of the sections behind valid data blocks describes a layout. -/
theorem completed_layout {t : SSTable} {header : FileHeaderSection} {b : BloomSection} {m : MetaSection}
    (hpacked : DataSection.Packed t.dataBlocks t.dataBlocks.flatten)
    (hes : IndexSection.Sequence (DataSection.blockEntries (aligned FileHeaderSection.diskSize) t.dataBlocks))
    (hm : m.payload.validate = .ok ()) {c : SSTable}
    (hc : c = completed t header (.ofPayloads (DataSection.blockEntries (aligned FileHeaderSection.diskSize)
      t.dataBlocks))
      (DataSection.sectionStart FileHeaderSection.diskSize t.dataBlocks) b m)
    (hsize : c.footerStart + FileFooterSection.diskSize < 2 ^ 64) : c.fileFooterSection.Layout c.footerStart := by
  have hcm : c.metaSection = m := by rw [hc]; rfl
  have hci : c.indexSection =
      .ofPayloads (DataSection.blockEntries (aligned FileHeaderSection.diskSize) t.dataBlocks) := by rw [hc]; rfl
  have hcd : c.dataEnd = t.dataEnd := by rw [hc]; rfl
  have hdisk : FileFooterSection.diskSize = 76 := rfl
  have hblock : BLOCK_SIZE = 4096 := rfl
  have hcap : IndexSection.kPayloadCapacity = 4087 := rfl
  have hbloomSize : BloomSection.diskSize = 153 := rfl
  have hindexSize : c.indexSection.diskSize = 9 + ((DataSection.blockEntries (aligned FileHeaderSection.diskSize)
      t.dataBlocks).map IndexSection.Payload.diskSize).sum := by rw [hci]; rfl
  have hmetaSize : c.metaSection.diskSize = 9 + m.payload.diskSize := by rw [hcm]; rfl
  have hmetaMin : m.payload.diskSize = 56 + m.payload.minKey.size + m.payload.maxKey.size := rfl
  have hifits := hes.fits
  have hmfits := MetaSection.Payload.validate_size hm
  have hmcap : BLOCK_SIZE - MetaSection.Header.diskSize = 4087 := rfl
  have hall := ((DataSection.validateBlocks_ok_iff none t.dataBlocks).mp
    ((DataSection.validateSection_ok_iff t.dataBlocks).mpr hpacked)).1
  have hindex : c.indexStart = aligned FileHeaderSection.diskSize + t.dataBlocks.length * BLOCK_SIZE := by
    rw [indexStart, hcd, dataEnd, DataSection.aligned_blocksBytes hall]
  have h1 : c.indexStart + c.indexSection.diskSize ≤ c.bloomStart := le_aligned _
  have h2 : c.bloomStart + BloomSection.diskSize ≤ c.metaStart := le_aligned _
  have h3 : c.metaStart + c.metaSection.diskSize ≤ c.footerStart := le_aligned _
  have hstart := aligned_headerSize
  have hcount : t.dataBlocks.length < 2 ^ 64 := by
    rw [hblock] at hindex
    omega
  have hnat : ∀ n : Nat, n < 2 ^ 64 → (UInt64.ofNat n).toNat = n := fun n hn => by
    rw [UInt64.toNat_ofNat', Nat.mod_eq_of_lt hn]
  have hnat32 : ∀ n : Nat, n < 2 ^ 32 → (UInt32.ofNat n).toNat = n := fun n hn => by
    rw [UInt32.toNat_ofNat', Nat.mod_eq_of_lt hn]
  have hfooter : c.fileFooterSection = (directory t.fileFooterSection
      (DataSection.sectionStart FileHeaderSection.diskSize t.dataBlocks) t.dataBlocks.length
      (c.indexSection, c.indexStart) (b, c.bloomStart) (c.metaSection, c.metaStart)).sealed c.footerStart := by
    rw [hc]
    rfl
  have edataOffset : c.fileFooterSection.dataOffset.toNat =
      DataSection.sectionStart FileHeaderSection.diskSize t.dataBlocks := by
    rw [hfooter]
    refine hnat _ ?_
    rw [DataSection.sectionStart]
    split
    · decide
    · rw [hstart]
      omega
  have ecount : c.fileFooterSection.dataBlockCount.toNat = t.dataBlocks.length := by
    rw [hfooter]
    exact hnat _ hcount
  have eindex : c.fileFooterSection.indexOffset.toNat = c.indexStart := by
    rw [hfooter]
    exact hnat _ (by omega)
  have ebloom : c.fileFooterSection.bloomOffset.toNat = c.bloomStart := by
    rw [hfooter]
    exact hnat _ (by omega)
  have emeta : c.fileFooterSection.metaOffset.toNat = c.metaStart := by
    rw [hfooter]
    exact hnat _ (by omega)
  have eindexSize : c.fileFooterSection.indexSize.toNat = c.indexSection.diskSize := by
    rw [hfooter]
    exact hnat32 c.indexSection.diskSize (by omega)
  have ebloomSize : c.fileFooterSection.bloomSize.toNat = BloomSection.diskSize := by
    rw [hfooter]
    exact hnat32 _ (by omega)
  have emetaSize : c.fileFooterSection.metaSize.toNat = c.metaSection.diskSize := by
    rw [hfooter]
    exact hnat32 c.metaSection.diskSize (by omega)
  have efileSize : c.fileFooterSection.fileSize.toNat = c.footerStart + FileFooterSection.diskSize := by
    rw [hfooter]
    exact hnat _ hsize
  refine
    { footer := aligned_mod _
      size := efileSize
      index := by rw [eindex]; exact aligned_mod _
      bloom := by rw [ebloom]; exact aligned_mod _
      metadata := by rw [emeta]; exact aligned_mod _
      data := fun hne => ?_
      empty := fun h0 => ?_
      indexSize := by rw [eindexSize, hindexSize]; exact Nat.le_add_right _ _
      bloomSize := ebloomSize
      metaSize := ?_
      indexEnd := by rw [eindex, eindexSize, ebloom]; exact h1
      bloomEnd := by rw [ebloom, ebloomSize, emeta]; exact h2
      metaEnd := by rw [emeta, emetaSize]; exact h3 }
  · have hblocks : t.dataBlocks ≠ [] := by
      intro hnil
      rw [hnil] at ecount
      exact hne (UInt64.toNat_inj.mp ecount)
    rw [edataOffset, ecount, eindex, DataSection.sectionStart, if_neg hblocks]
    exact ⟨aligned_mod _, hindex.symm⟩
  · rw [edataOffset, eindex, hindex, DataSection.sectionStart]
    split
    · exact le_trans (le_aligned _) (Nat.le_add_right _ _)
    · exact Nat.le_add_right _ _
  · rw [emetaSize, hmetaSize]
    have hmin : FileFooterSection.kMetaMinimumDiskSizeV1 = 65 := rfl
    omega

/-- The table that `write` gives when the sections of its data blocks are these. -/
def finished (t : SSTable) (b : BloomSection) (m : MetaSection) : SSTable :=
  { completed t t.fileHeaderSection.sealed
      (.ofPayloads (DataSection.blockEntries (aligned FileHeaderSection.diskSize) t.dataBlocks))
      (DataSection.sectionStart FileHeaderSection.diskSize t.dataBlocks) b m with
    state := .published
    path := t.finalPath }

/-- Nothing but the appends to the file can fail. -/
structure Ready (calls : TableCalls) (t : SSTable) : Prop where
  state : t.state = .building
  path : t.path ≠ []
  finalPath : t.finalPath ≠ []
  differ : calls.lexicallyNormal t.path ≠ calls.lexicallyNormal t.finalPath
  removeStale : calls.removeStale = .ok ()
  openWritableFile : calls.openWritableFile = .ok ()
  sync : calls.sync = .ok ()
  close : calls.close = .ok ()
  durableRename : calls.durableRename = .ok ()
  syncParentDirectory : calls.syncParentDirectory = .ok ()

omit [Zlib] in
theorem Ready.fsync {calls : TableCalls} {t : SSTable} (h : Ready calls t) (t₁ : SSTable) :
    SSTable.fsync calls t₁ = .ok { t₁ with state := .published, path := t₁.finalPath } := by
  unfold SSTable.fsync
  rw [h.sync, h.close, h.durableRename, h.syncParentDirectory]
  rfl

/-- **Writing a table.**  Data blocks that are valid and whose sections can be derived are written, behind the header
and in front of the sections and the footer. -/
theorem emits_write {calls : TableCalls} {t : SSTable} {b : BloomSection} {m : MetaSection} (hready : Ready calls t)
    (hfields : t.fileHeaderSection.validateFields = .ok ())
    (hpacked : DataSection.Packed t.dataBlocks t.dataBlocks.flatten)
    (hes : IndexSection.Sequence (DataSection.blockEntries (aligned FileHeaderSection.diskSize) t.dataBlocks))
    (hbloom : BloomSection.rebuild t.dataBlocks = .ok b)
    (hmeta : MetaSection.rebuild t.dataBlocks
      (.ofPayloads (DataSection.blockEntries (aligned FileHeaderSection.diskSize) t.dataBlocks)) = .ok m)
    (hsize : (finished t b m).footerStart + FileFooterSection.diskSize < 2 ^ 64) :
    Emits (write calls t) 0 (finished t b m).image (finished t b m) := by
  obtain ⟨-, -, -, hmvalid, -, -⟩ := MetaSection.rebuild_ok hmeta
  have hwritable : checkWritable calls t = .ok () := by
    rw [checkWritable, if_neg (not_not.mpr hready.state), if_neg hready.path, if_neg hready.finalPath,
      if_neg hready.differ]
  have hheader := FileHeaderSection.emits_write hfields 0
  rw [alignment_of_edge (by decide), List.nil_append] at hheader
  have hdata := DataSection.emits_write hpacked hes
  have hsections := emits_writeSections hes hbloom hmeta hsize
    (@completed_layout _ t t.fileHeaderSection.sealed b m hpacked hes hmvalid _ rfl hsize)
  rw [write]
  refine Emits.lift hwritable (Emits.lift hready.removeStale (Emits.lift hready.openWritableFile (hheader.bind ?_)))
  rw [FileHeaderSection.length_encode, Nat.zero_add]
  refine hdata.bind (hsections.last ?_)
  rw [hready.fsync]
  exact emits_pure _ _

end SSTable

/-! ## A table of two blocks -/

/-- The calls end well. -/
def quietCalls : TableCalls := ⟨id, .ok (), .ok (), .ok (), .ok (), .ok (), .ok ()⟩

/-- A table with four records in two blocks, ready to be written. -/
def twoBlockTable : SSTable where
  state := .building
  path := [97, 46, 116]
  finalPath := [97]
  fileHeaderSection := @FileHeaderSection.ofTableId documentedZlib 1
  dataBlocks := DataSection.fourBlocks
  indexSection := @IndexSection.ofPayloads documentedZlib []
  bloomSection := @BloomSection.ofPayload documentedZlib .blank
  metaSection := @MetaSection.ofPayload documentedZlib .zero
  fileFooterSection := ⟨0, 0, 0, 0, 0, 0, 0, 0, 0, 0, 0, 0, 0⟩

def twoBlockMeta : MetaSection.Payload := ⟨4, 1, 1, 9, .empty, .ofByte 97, 2, 4122⟩

theorem twoBlockTable_meta : @MetaSection.rebuild documentedZlib DataSection.fourBlocks
    (@IndexSection.ofPayloads documentedZlib (DataSection.blockEntries 4096 DataSection.fourBlocks)) =
      .ok (@MetaSection.ofPayload documentedZlib twoBlockMeta) := by
  decide +kernel

theorem twoBlockTable_size [Zlib] {t : SSTable} (ht : t.dataBlocks = DataSection.fourBlocks) (b : BloomSection) :
    (t.finished b (.ofPayload twoBlockMeta)).footerStart + FileFooterSection.diskSize < 2 ^ 64 := by
  have hvalid := (DataSection.validateBlocks_ok_iff none _).mp
    ((DataSection.validateSection_ok_iff _).mpr DataSection.fourBlocks_packed)
  rw [← ht] at hvalid
  have hdata := DataSection.aligned_blocksBytes hvalid.1 FileHeaderSection.diskSize
  have htwo : t.dataBlocks.length = 2 := by
    rw [ht]
    rfl
  rw [aligned_headerSize, htwo] at hdata
  have hend : t.dataEnd ≤ 4096 + 2 * BLOCK_SIZE := hdata ▸ le_aligned _
  have hlt := (t.finished b (.ofPayload twoBlockMeta)).footerStart_lt
  have hdataEnd : (t.finished b (.ofPayload twoBlockMeta)).dataEnd = t.dataEnd := rfl
  have hindex : (t.finished b (.ofPayload twoBlockMeta)).indexSection.diskSize = 44 := by
    show (IndexSection.ofPayloads (DataSection.blockEntries (aligned FileHeaderSection.diskSize)
      t.dataBlocks)).diskSize = 44
    rw [aligned_headerSize, ht]
    rfl
  have hmeta : (t.finished b (.ofPayload twoBlockMeta)).metaSection.diskSize = 66 := rfl
  have hsizes : BloomSection.diskSize = 153 ∧ FileFooterSection.diskSize = 76 ∧ BLOCK_SIZE = 4096 :=
      ⟨rfl, rfl, rfl⟩
  omega

/-- A table with these blocks is written. -/
theorem twoBlockTable_writes : let _ := documentedZlib
    ∀ {t : SSTable}, SSTable.Ready quietCalls t → t.fileHeaderSection.validateFields = .ok () →
      t.dataBlocks = DataSection.fourBlocks →
        ∃ t' w', t'.metaSection.payload = twoBlockMeta ∧
          t.write quietCalls ⟨[], 0, none, ⟨.ioError, ""⟩⟩ = (.ok t', w') := by
  intro _ t hready hfields ht
  have hes : IndexSection.Sequence (DataSection.blockEntries (aligned FileHeaderSection.diskSize) t.dataBlocks) := by
    rw [aligned_headerSize, ht]
    exact DataSection.fourBlocks_sequence
  have hpacked : DataSection.Packed t.dataBlocks t.dataBlocks.flatten := by
    rw [ht]
    exact DataSection.fourBlocks_packed
  have hcount : t.dataBlocks.flatten.length < 2 ^ 32 := by
    rw [ht]
    decide
  obtain ⟨b, hbloom⟩ := BloomSection.exists_rebuild hcount
  have hmeta : MetaSection.rebuild t.dataBlocks (.ofPayloads
      (DataSection.blockEntries (aligned FileHeaderSection.diskSize) t.dataBlocks)) =
        .ok (.ofPayload twoBlockMeta) := by
    rw [aligned_headerSize, ht]
    exact twoBlockTable_meta
  have hw : (⟨[], 0, none, ⟨.ioError, ""⟩⟩ : Writer Status).Synced := rfl
  exact ⟨_, _, rfl, (SSTable.emits_write hready hfields hpacked hes hbloom hmeta (twoBlockTable_size ht b)).free
    hw rfl rfl⟩

end Kvdb
