import Kvdb.SSTable.Building
import Kvdb.SSTable.Reloading
import Kvdb.SSTable.SectionBuilding
import Kvdb.SSTable.Traversal

/-!
# What was written is read

A table that was written (`Written`) stands in its file as an `Image`: `SSTable::load`
accepts the file, with the sections that the writer had, and its data blocks are found
where they were put.  From there the round trip is a traversal of the blocks
(`round_trip`).
-/

namespace Kvdb

open Faulty Bytes DataSection DataSectionView

/-- The record of a builder as a block decoder gives it back. -/
def InternalRecord.stored (r : InternalRecord) : StoredRecord := (Payload.ofRecord r).record

namespace SSTable

variable [Zlib]

/-- The views of blocks that stand one block apart from `off` on. -/
def views : Nat → List (List Payload) → List DataSectionView.DataBlock
  | _, [] => []
  | off, b :: bs => { headerView := viewAt off (derivedHeader b) } :: views (off + BLOCK_SIZE) bs

/-- The table as `load` gives it back. -/
def reloaded (t : SSTable) : LoadedTable where
  fileHeaderSection := t.fileHeaderSection
  dataSectionView := ⟨t.fileFooterSection.dataOffset.toNat, t.fileFooterSection.indexOffset.toNat,
    views (aligned FileHeaderSection.diskSize) t.dataBlocks⟩
  indexSection := t.indexSection
  bloomSection := t.bloomSection
  metaSection := t.metaSection
  fileFooterSection := t.fileFooterSection

theorem length_views (off : Nat) (blocks : List (List Payload)) : (views off blocks).length = blocks.length := by
  induction blocks generalizing off with
  | nil => rfl
  | cons b bs ih => rw [views, List.length_cons, List.length_cons, ih]

/-! ## The blocks in the file -/

/-- The blocks stand in the file, one block apart from `off` on. -/
def BlocksAt (file : ReadableFile) (off : Nat) (blocks : List (List Payload)) : Prop :=
  ∀ i b, blocks[i]? = some b → Discovered file (off + i * BLOCK_SIZE)
    (viewAt (off + i * BLOCK_SIZE) (derivedHeader b)) ∧
    Framed file (viewAt (off + i * BLOCK_SIZE) (derivedHeader b)) b

variable {file : ReadableFile}

theorem BlocksAt.tail {off : Nat} {b : List Payload} {bs : List (List Payload)} (h : BlocksAt file off (b :: bs)) :
    BlocksAt file (off + BLOCK_SIZE) bs := by
  intro i c hc
  have hnext := h (i + 1) c hc
  rw [Nat.succ_mul, Nat.add_comm (i * BLOCK_SIZE), ← Nat.add_assoc] at hnext
  exact hnext

theorem BlocksAt.head {off : Nat} {b : List Payload} {bs : List (List Payload)} (h : BlocksAt file off (b :: bs)) :
    Discovered file off (viewAt off (derivedHeader b)) ∧ Framed file (viewAt off (derivedHeader b)) b := by
  have hfirst := h 0 b rfl
  rw [Nat.zero_mul, Nat.add_zero] at hfirst
  exact hfirst

theorem BlocksAt.standing {off : Nat} {blocks : List (List Payload)} (h : BlocksAt file off blocks) :
    Standing file off (views off blocks) := by
  induction blocks generalizing off with
  | nil => trivial
  | cons b bs ih => exact ⟨h.head.1, rfl, ih h.tail⟩

theorem BlocksAt.readable [LawfulZlib] (hf : file.Sound) {off : Nat} {blocks : List (List Payload)}
    (h : BlocksAt file off blocks) : SSTableIterator.Readable file off blocks := by
  induction blocks generalizing off with
  | nil => trivial
  | cons b bs ih =>
    obtain ⟨hd, hp⟩ := h.head
    exact ⟨hp.ne, SSTableIterator.readBlock_framed hf hd hp, ih h.tail⟩

/-! ## The sections in the file -/

/-- The places of the sections in the bytes of the file. -/
theorem sectionsAt (t : SSTable) :
    At t.image t.indexStart (IndexSection.encode t.indexSection.payloads) ∧
      At t.image t.bloomStart t.bloomSection.encode ∧
      At t.image t.metaStart (MetaSection.encode t.metaSection.payload) ∧
      At t.image t.footerStart t.fileFooterSection.encode := by
  have hall : At t.image 0 t.image := List.prefix_refl _
  have htail : At t.image t.dataEnd t.tailBytes := by
    have hright := hall.right.right
    rw [FileHeaderSection.length_encode, Nat.zero_add] at hright
    exact hright
  have hindexSize : (alignment t.dataEnd ++ IndexSection.encode t.indexSection.payloads).length =
      (alignment t.dataEnd).length + t.indexSection.diskSize := by
    rw [List.length_append, IndexSection.length_encode]
    rfl
  have hmetaSize : (alignment (t.bloomStart + BloomSection.diskSize) ++
      MetaSection.encode t.metaSection.payload).length =
        (alignment (t.bloomStart + BloomSection.diskSize)).length + t.metaSection.diskSize := by
    rw [List.length_append, MetaSection.length_encode]
    rfl
  have hindex := htail.left.right
  have hbehindIndex := htail.right
  rw [hindexSize, ← Nat.add_assoc] at hbehindIndex
  have hbloom := hbehindIndex.left.right
  have hbehindBloom := hbehindIndex.right
  rw [List.length_append, BloomSection.length_encode, ← Nat.add_assoc] at hbehindBloom
  have hmeta := hbehindBloom.left.right
  have hbehindMeta := hbehindBloom.right
  rw [hmetaSize, ← Nat.add_assoc] at hbehindMeta
  exact ⟨hindex, hbloom, hmeta, hbehindMeta.right⟩

namespace Written

variable {t t' : SSTable}

theorem valid (h : Written t t') : ∀ b ∈ t.dataBlocks, ValidBlock b :=
  ((validateBlocks_ok_iff none t.dataBlocks).mp ((validateSection_ok_iff t.dataBlocks).mpr h.packed)).1

theorem indexStart_eq (h : Written t t') :
    t'.indexStart = aligned FileHeaderSection.diskSize + t.dataBlocks.length * BLOCK_SIZE := by
  rw [indexStart, dataEnd, h.blocks, aligned_blocksBytes h.valid]

/-- The sections lie in front of the footer. -/
theorem starts (h : Written t t') :
    aligned FileHeaderSection.diskSize + t.dataBlocks.length * BLOCK_SIZE ≤ t'.indexStart ∧
      t'.indexStart + t'.indexSection.diskSize ≤ t'.bloomStart ∧
      t'.bloomStart + BloomSection.diskSize ≤ t'.metaStart ∧
      t'.metaStart + t'.metaSection.diskSize ≤ t'.footerStart ∧
      t'.footerStart + FileFooterSection.diskSize < 2 ^ 64 := by
  have hlt := t'.fileFooterSection.fileSize.toNat_lt
  rw [h.layout.size] at hlt
  exact ⟨h.indexStart_eq.ge, le_aligned _, le_aligned _, le_aligned _, hlt⟩

/-- The footer holds the places of the sections. -/
theorem offsets (h : Written t t') :
    t'.fileFooterSection.dataOffset.toNat = sectionStart FileHeaderSection.diskSize t.dataBlocks ∧
      t'.fileFooterSection.dataBlockCount.toNat = t.dataBlocks.length ∧
      t'.fileFooterSection.indexOffset.toNat = t'.indexStart ∧
      t'.fileFooterSection.bloomOffset.toNat = t'.bloomStart ∧
      t'.fileFooterSection.metaOffset.toNat = t'.metaStart := by
  obtain ⟨h1, h2, h3, h4, h5⟩ := h.starts
  obtain ⟨f, hf⟩ := h.directory
  have hb : BLOCK_SIZE = 4096 := rfl
  have hnat : ∀ n : Nat, n < 2 ^ 64 → (UInt64.ofNat n).toNat = n := fun n hn => by
    rw [UInt64.toNat_ofNat', Nat.mod_eq_of_lt hn]
  have hstart : sectionStart FileHeaderSection.diskSize t.dataBlocks ≤ aligned FileHeaderSection.diskSize := by
    rw [sectionStart]
    split
    · exact le_aligned _
    · exact Nat.le_refl _
  have hcount : t.dataBlocks.length ≤ t.dataBlocks.length * BLOCK_SIZE := Nat.le_mul_of_pos_right _ (by decide)
  rw [hf]
  exact ⟨hnat _ (by omega), hnat _ (by omega), hnat _ (by omega), hnat _ (by omega), hnat _ (by omega)⟩

theorem sizes (h : Written t t') :
    t'.fileFooterSection.indexSize.toNat = t'.indexSection.diskSize ∧
      t'.fileFooterSection.metaSize.toNat = t'.metaSection.diskSize := by
  obtain ⟨f, hf⟩ := h.directory
  have hcap : IndexSection.kPayloadCapacity = 4087 := rfl
  have hindex : t'.indexSection.diskSize = 9 + (t'.indexSection.payloads.map IndexSection.Payload.diskSize).sum := rfl
  have hfits := h.sequence.fits
  obtain ⟨-, -, -, hmvalid, -⟩ := MetaSection.rebuild_ok h.metadata
  have hmeta : t'.metaSection.diskSize = 9 + t'.metaSection.payload.diskSize := rfl
  have hmfits := MetaSection.Payload.validate_size hmvalid
  have hmcap : BLOCK_SIZE - MetaSection.Header.diskSize = 4087 := rfl
  have hnat : ∀ n : Nat, n < 2 ^ 32 → (UInt32.ofNat n).toNat = n := fun n hn => by
    rw [UInt32.toNat_ofNat', Nat.mod_eq_of_lt hn]
  rw [hf]
  exact ⟨hnat t'.indexSection.diskSize (by omega), hnat t'.metaSection.diskSize (by omega)⟩

/-- The data blocks stand in the file. -/
theorem blocksAt [LawfulZlib] (h : Written t t') (hbytes : file.bytes = t'.image) :
    BlocksAt file (aligned FileHeaderSection.diskSize) t.dataBlocks := by
  intro i b hi
  obtain ⟨h1, h2, h3, h4, h5⟩ := h.starts
  have hvalid := h.valid b (List.mem_of_getElem? hi)
  have hlt : i < t.dataBlocks.length := (List.getElem?_eq_some_iff.mp hi).1
  have hend : i * BLOCK_SIZE + BLOCK_SIZE ≤ t.dataBlocks.length * BLOCK_SIZE := by
    rw [← Nat.succ_mul]
    exact Nat.mul_le_mul_right _ hlt
  have hfooter : FileFooterSection.diskSize = 76 := rfl
  have hat : At file.bytes (aligned FileHeaderSection.diskSize + i * BLOCK_SIZE) (blockBody b) := by
    have hfront := blocksBytes_at h.valid t'.fileHeaderSection.encode hi
    rw [FileHeaderSection.length_encode] at hfront
    have hne : blockBody b ≠ [] := by
      intro hnil
      have hlen := congrArg List.length hnil
      rw [length_blockBody, blockDiskSize, List.length_nil] at hlen
      have hheader : DataSection.Header.diskSize = 9 := rfl
      omega
    rw [hbytes, image, h.blocks, ← List.append_assoc]
    exact hfront.mono _ hne
  refine blockRecords_at ?_ (by omega) hvalid.ne hvalid.fits hat
  rw [Nat.add_mul_mod_self_right]
  exact aligned_mod _

/-- **A written table stands in its file.** -/
theorem image [LawfulZlib] (h : Written t t') (hbytes : file.bytes = t'.image) :
    Image file t'.reloaded t'.footerStart := by
  obtain ⟨hdata, hcount, hindex, hbloom, hmeta⟩ := h.offsets
  obtain ⟨hindexSize, hmetaSize⟩ := h.sizes
  obtain ⟨hindexAt, hbloomAt, hmetaAt, hfooterAt⟩ := t'.sectionsAt
  obtain ⟨hbvalid, hbloomEq⟩ := BloomSection.rebuild_ok h.bloom
  obtain ⟨-, -, hmetaEq, hmvalid, hconsistent, -⟩ := MetaSection.rebuild_ok h.metadata
  have hblocks := (h.blocksAt hbytes).standing
  have hentries : t'.indexSection = .ofPayloads t'.indexSection.payloads := by
    rw [h.index]
    rfl
  exact
    { size := by rw [hbytes, length_image]
      headerAt := by
        have hall : At t'.image 0 t'.image := List.prefix_refl _
        rw [hbytes]
        exact hall.left
      headerFields := by
        show t'.fileHeaderSection.validateFields = .ok ()
        rw [h.header.2]
        exact h.header.1
      headerCrc := by
        show t'.fileHeaderSection.calculateCrc32 = t'.fileHeaderSection.crc32
        rw [h.header.2]
        rfl
      footerAt := by rw [hbytes]; exact hfooterAt
      footerSealed := by
        obtain ⟨f, hf⟩ := h.directory
        show t'.fileFooterSection.sealed t'.footerStart = t'.fileFooterSection
        rw [hf, sealed_sealed]
      layout := h.layout
      dataStart := by
        show FileHeaderSection.diskSize ≤ t'.fileFooterSection.dataOffset.toNat
        rw [hdata, sectionStart]
        split
        · exact Nat.le_refl _
        · exact le_aligned _
      view := rfl
      count := by
        show (views _ t'.dataBlocks).length = t'.fileFooterSection.dataBlockCount.toNat
        rw [length_views, h.blocks, hcount]
      blocks := by
        show Standing file t'.fileFooterSection.dataOffset.toNat (views _ t'.dataBlocks)
        rw [hdata, h.blocks]
        by_cases hnil : t.dataBlocks = []
        · rw [hnil]
          trivial
        · rw [sectionStart, if_neg hnil]
          exact hblocks
      index := hentries
      sequence := h.sequence
      indexAt := by
        show At file.bytes t'.fileFooterSection.indexOffset.toNat _
        rw [hbytes, hindex]
        exact hindexAt
      indexSize := hindexSize
      bloom := hbloomEq
      bloomValid := hbvalid
      bloomAt := by
        show At file.bytes t'.fileFooterSection.bloomOffset.toNat _
        rw [hbytes, hbloom]
        exact hbloomAt
      metadata := hmetaEq
      metaValid := hmvalid
      metaAt := by
        show At file.bytes t'.fileFooterSection.metaOffset.toNat _
        rw [hbytes, hmeta]
        exact hmetaAt
      metaSize := hmetaSize
      consistent := hconsistent }

end Written

/-! ## The round trip -/

section

variable {tableId : UInt32} {path finalPath : List UInt8} {records : List InternalRecord} {t t' : SSTable}
  {calls : TableCalls} {w w' : Writer Status}

/-- A table is published under the path it was built for. -/
theorem write_path (h : t.write calls w = (.ok t', w')) : t.finalPath ≠ [] := by
  obtain ⟨_, hcheck, -⟩ := lift_bind_eq_ok h
  unfold checkWritable at hcheck
  split at hcheck
  · cases hcheck
  split at hcheck
  · cases hcheck
  split at hcheck
  · cases hcheck
  next hne => exact hne

/-- **Round trip.**  The file of a built table that was written is loaded with the sections that were written, and an
iterator over it shows the records that were built, in order, and then ends with status ok. -/
theorem round_trip [LawfulZlib] (hbuilt : Built tableId path finalPath records t) (hw : w.Synced) (ho : w.offset = 0)
    (hwrite : t.write calls w = (.ok t', w')) (hf : file.Sound) (hbytes : file.bytes = w'.bytes) {s : LoadState}
    (hs : LoadM.Calm s) :
    ∃ loaded s', SSTable.load t'.path (.ok file) s = (.ok loaded, s') ∧
      loaded.fileHeaderSection = t'.fileHeaderSection ∧ loaded.fileFooterSection = t'.fileFooterSection ∧
      loaded.indexSection = t'.indexSection ∧ loaded.bloomSection = t'.bloomSection ∧
      loaded.metaSection = t'.metaSection ∧
      ∀ (it : SSTableIterator) (k : Nat), k ≤ records.length →
        ∃ it', SSTableIterator.advanced loaded.fileFooterSection file k it = (.ok (), it') ∧
          it'.record = (records.map InternalRecord.stored)[k]? ∧ it'.status = none ∧
          (it'.valid = true ↔ k < records.length) := by
  obtain ⟨hwritten, himage⟩ := write_ok hw ho hwrite
  have hpath : t'.path ≠ [] := hwritten.path ▸ write_path hwrite
  have hstands := hwritten.image (hbytes.trans himage)
  obtain ⟨s', hload, -, -⟩ := hstands.load hf hpath s.offset s hs rfl
  refine ⟨t'.reloaded, s', hload, rfl, rfl, rfl, rfl, rfl, ?_⟩
  intro it k hk
  have hflatten : t.dataBlocks.flatten = records.map Payload.ofRecord := hbuilt.packed.2.flatten
  have hlength : t.dataBlocks.flatten.length = records.length := by rw [hflatten, List.length_map]
  obtain ⟨hdata, hcount, -⟩ := hwritten.offsets
  have hreadable : SSTableIterator.Readable file t'.fileFooterSection.dataOffset.toNat t.dataBlocks := by
    rw [hdata]
    by_cases hnil : t.dataBlocks = []
    · rw [hnil]
      trivial
    · rw [sectionStart, if_neg hnil]
      exact (hwritten.blocksAt (hbytes.trans himage)).readable hf
  obtain ⟨it', hrun, hrecord, hstatus, hvalid⟩ := SSTableIterator.advanced_ok hreadable hcount it (hlength ▸ hk)
  rw [hflatten, List.map_map] at hrecord
  rw [hlength] at hvalid
  exact ⟨it', hrun, hrecord, hstatus, hvalid⟩

end

end SSTable

/-- A new arena with small pages. -/
def freshLoad : LoadState := ⟨⟨{ self := 0, pageSize := 128, largeThreshold := 512 }, {}⟩, 0⟩

theorem freshLoad_calm : LoadM.Calm freshLoad := by
  refine ⟨⟨by decide, ?_, ?_, ?_, ?_⟩, List.not_mem_nil⟩
  · exact fun p hp => absurd hp List.not_mem_nil
  · exact fun p hp => absurd hp List.not_mem_nil
  · exact List.nodup_nil
  · exact fun p hp => absurd hp List.not_mem_nil

/-- The records appended to a table are those appended to its blocks. -/
theorem SSTable.appendRecords_packFrom [Zlib] {t : SSTable} (hstate : t.state = .building) {rs : List InternalRecord}
    {blocks : List (List Payload)} (h : packFrom t.dataBlocks rs = .ok blocks) :
    rs.foldlM SSTable.appendRecord t = .ok { t with dataBlocks := blocks } := by
  induction rs generalizing t with
  | nil =>
    cases h
    rfl
  | cons r rs ih =>
    rw [packFrom] at h
    obtain ⟨bs, hadd, h⟩ := except_bind_ok h
    have hone : t.appendRecord r = .ok { t with dataBlocks := bs } := by
      unfold SSTable.appendRecord
      rw [if_neg (not_not.mpr hstate), hadd]
      rfl
    rw [List.foldlM_cons, hone]
    exact ih (t := { t with dataBlocks := bs }) hstate h

/-- The table of the four records, as a builder makes it. -/
def twoBlockBuilt : SSTable :=
  { @SSTable.building documentedZlib [97, 46, 116] [97] 1 with dataBlocks := fourBlocks }

theorem twoBlockBuilt_built : @SSTable.Built documentedZlib 1 [97, 46, 116] [97] fourRecords twoBlockBuilt := by
  refine @SSTable.Built.build documentedZlib _ _ _ _ _ ?_
  have hpack : @packFrom documentedZlib [] fourRecords = .ok fourBlocks := by decide +kernel
  have hall := @SSTable.appendRecords_packFrom documentedZlib
      (@SSTable.building documentedZlib [97, 46, 116] [97] 1) rfl
    _ _ hpack
  have hsorted : validateRecords fourRecords = true := by decide
  unfold SSTableBuilder.build
  rw [if_neg (by decide), hsorted, if_neg (by decide), hall]
  rfl

/-- The table is written and loaded. -/
theorem twoBlockBuilt_loads : let _ := documentedZlib
    ∃ t' w' s', twoBlockBuilt.write quietCalls ⟨[], 0, none, ⟨.ioError, ""⟩⟩ = (.ok t', w') ∧
      SSTable.load t'.path (.ok (.ofBytes w'.bytes "a")) freshLoad = (.ok t'.reloaded, s') := by
  intro
  have := documentedZlib_lawful
  have hready : SSTable.Ready quietCalls twoBlockBuilt := by constructor <;> decide
  have hw : (⟨[], 0, none, ⟨.ioError, ""⟩⟩ : Writer Status).Synced := rfl
  obtain ⟨t', w', -, hwrite⟩ := twoBlockTable_writes hready (by decide) rfl
  obtain ⟨hwritten, himage⟩ := SSTable.write_ok hw rfl hwrite
  have hf : (ReadableFile.ofBytes w'.bytes "a").Sound := ReadableFile.ofBytes_sound _ "a"
  have hpath : t'.path ≠ [] := hwritten.path ▸ SSTable.write_path hwrite
  obtain ⟨s', hload, -⟩ := (hwritten.image himage).load hf hpath 0 freshLoad freshLoad_calm rfl
  exact ⟨t', w', s', hwrite, hload⟩

/-- The last record is behind three steps, in the second block. -/
theorem round_trip_fourRecords : let _ := documentedZlib
    ∃ t' w' loaded s', twoBlockBuilt.write quietCalls ⟨[], 0, none, ⟨.ioError, ""⟩⟩ = (.ok t', w') ∧
      SSTable.load t'.path (.ok (.ofBytes w'.bytes "a")) freshLoad = (.ok loaded, s') ∧
      ∃ it, SSTableIterator.advanced loaded.fileFooterSection (.ofBytes w'.bytes "a") 3 { currentOffset := 0 } =
        (.ok (), it) ∧ it.record = some ⟨.ofByte 97, longEntry 7, RecType.put.toU8, 7⟩ := by
  intro
  have := documentedZlib_lawful
  obtain ⟨t', w', -, hwrite, -⟩ := twoBlockBuilt_loads
  have hw : (⟨[], 0, none, ⟨.ioError, ""⟩⟩ : Writer Status).Synced := rfl
  obtain ⟨loaded, s', hload, -, -, -, -, -, hrun⟩ :=
    SSTable.round_trip twoBlockBuilt_built hw rfl hwrite (ReadableFile.ofBytes_sound _ "a") rfl freshLoad_calm
  obtain ⟨it, hlast, hrecord, -⟩ := hrun { currentOffset := 0 } 3 (by decide)
  exact ⟨t', w', loaded, s', hwrite, hload, it, hlast, hrecord⟩

end Kvdb
