import Kvdb.SSTable.RoundTrip

/-!
# The layout of an accepted table

Which bytes of the file the parts of a loaded table take up (`LoadedTable.extents`), and
the sums and products of offsets, sizes and counts that were computed on the way there
(`LoadedTable.computed`).

The footer is checked first against itself and against the size of the file.  Each
section is then loaded at the offset in the footer and has to end where the footer says,
so that the part and its declared extent are the same bytes; the order of the parts is
the order of the declared extents.
-/

namespace Kvdb

open Faulty Bytes

/-- The bytes of a file from `first` up to `limit`. -/
structure Extent where
  first : Nat
  limit : Nat
deriving DecidableEq

namespace Extent

/-- The extent of `size` bytes at an offset. -/
def ofSize (first size : Nat) : Extent := ⟨first, first + size⟩

def Contains (e : Extent) (i : Nat) : Prop := e.first ≤ i ∧ i < e.limit

/-- The second extent begins behind the first one. -/
def Before (a b : Extent) : Prop := a.limit ≤ b.first

/-- No byte is in both. -/
def Disjoint (a b : Extent) : Prop := ∀ i, a.Contains i → ¬b.Contains i

theorem Before.disjoint {a b : Extent} (h : a.Before b) : a.Disjoint b := by
  intro i ha hb
  have hle : a.limit ≤ b.first := h
  have hlt := ha.2
  have hge := hb.1
  omega

end Extent

/-! ## The parts of the file -/

namespace LoadedTable

/-- The blocks of the data section. -/
def blockExtents (t : LoadedTable) : List Extent :=
  t.dataSectionView.dataBlocks.map fun b => ⟨b.headerView.headerOffset, b.headerView.nextBlockOffset⟩

/-- The sections behind the data blocks, each as long as what was loaded there. -/
def tailExtents (t : LoadedTable) (fileSize : Nat) : List Extent :=
  [.ofSize t.fileFooterSection.indexOffset.toNat t.indexSection.diskSize,
    .ofSize t.fileFooterSection.bloomOffset.toNat BloomSection.diskSize,
    .ofSize t.fileFooterSection.metaOffset.toNat t.metaSection.diskSize,
    .ofSize (fileSize - FileFooterSection.diskSize) FileFooterSection.diskSize]

/-- Header, data blocks, index, Bloom filter, metadata, footer. -/
def extents (t : LoadedTable) (fileSize : Nat) : List Extent :=
  .ofSize 0 FileHeaderSection.diskSize :: (t.blockExtents ++ t.tailExtents fileSize)

end LoadedTable

/-! ## The arithmetic of the loaders -/

/-- `FileFooterSection::load` and `validate`, `SSTable::load`, and `DataSectionView::load` for its extent. -/
def FileFooterSection.computed (f : FileFooterSection) (fileSize : Nat) : List Nat :=
  [fileSize - diskSize + diskSize,
    f.dataBlockCount.toNat * BLOCK_SIZE,
    f.dataOffset.toNat + f.dataBlockCount.toNat * BLOCK_SIZE,
    f.indexOffset.toNat + f.indexSize.toNat,
    f.bloomOffset.toNat + f.bloomSize.toNat,
    f.metaOffset.toNat + f.metaSize.toNat]

/-- `DataSectionView::Header::load`: the ends of the header, of the payload and of the block. -/
def DataSectionView.Header.computed (h : Header) : List Nat :=
  [h.headerOffset + DataSection.Header.diskSize,
    h.payloadOffset + h.header.payloadDiskSize.toNat,
    h.headerOffset + BLOCK_SIZE]

namespace IndexSection

/-- `key_bytes` of an entry. -/
def Payload.keyBytes (p : Payload) : Nat := p.firstKey.size + p.lastKey.size

/-- `load_impl`: the size and the end of the section, the bytes of one entry's keys, the entry's size, the running
totals of both behind every entry, and the offset that the next entry should have. -/
def computed (s : IndexSection) (indexOffset : Nat) : List Nat :=
  [Header.diskSize + s.header.payloadSize.toNat, indexOffset + (Header.diskSize + s.header.payloadSize.toNat)] ++
    s.payloads.map Payload.keyBytes ++ s.payloads.map Payload.diskSize ++
    s.payloads.inits.map (fun ps => (ps.map Payload.keyBytes).sum) ++
    s.payloads.inits.map (fun ps => (ps.map Payload.diskSize).sum) ++
    s.payloads.dropLast.map (fun p => p.dataBlockOffset.toNat + BLOCK_SIZE)

end IndexSection

/-- `MetaSection::Payload::load` and `validate`: the sizes of the payload and of the section, the end of the section,
and the bounds on the bytes of the data blocks. -/
def MetaSection.computed (m : MetaSection) (metaOffset : Nat) : List Nat :=
  [m.payload.minKey.size + m.payload.maxKey.size,
    m.payload.diskSize,
    m.diskSize,
    metaOffset + m.diskSize,
    m.payload.dataBlockCount.toNat * (DataSection.Header.diskSize + DataSection.Payload.fixedPartDiskSize),
    m.payload.dataBlockCount.toNat * BLOCK_SIZE]

namespace LoadedTable

/-- The sums and products on the way to a loaded table. -/
def computed (t : LoadedTable) (fileSize : Nat) : List Nat :=
  t.fileFooterSection.computed fileSize ++
    t.dataSectionView.dataBlocks.flatMap (fun b => b.headerView.computed) ++
    t.indexSection.computed t.fileFooterSection.indexOffset.toNat ++
    [t.fileFooterSection.bloomOffset.toNat + BloomSection.diskSize] ++
    t.metaSection.computed t.fileFooterSection.metaOffset.toNat

/-- The parts of the file as the loaders found them. -/
structure SoundLayout (t : LoadedTable) (file : ReadableFile) : Prop where
  ordered : (t.extents file.bytes.length).Pairwise Extent.Before
  disjoint : (t.extents file.bytes.length).Pairwise Extent.Disjoint
  nonempty : ∀ e ∈ t.extents file.bytes.length, e.first < e.limit
  inside : ∀ e ∈ t.extents file.bytes.length, e.limit ≤ file.bytes.length
  count : t.blockExtents.length = t.fileFooterSection.dataBlockCount.toNat
  index : t.indexSection.diskSize = t.fileFooterSection.indexSize.toNat
  bloom : BloomSection.diskSize = t.fileFooterSection.bloomSize.toNat
  metadata : t.metaSection.diskSize = t.fileFooterSection.metaSize.toNat
  footer : (t.extents file.bytes.length).getLast? =
    some ⟨file.bytes.length - FileFooterSection.diskSize, file.bytes.length⟩
  computed : ∀ n ∈ t.computed file.bytes.length, n < 2 ^ 64
  cursors : ∀ (size off : Nat) (d : List UInt8) (off' : Nat), off < 2 ^ 64 →
    readExactAt size file off = .ok (d, off') →
    off' < 2 ^ 64

end LoadedTable

/-! ## Where a reader inside one block ends -/

/-- From inside a block with room for `n` bytes, the reader takes `n` bytes. -/
def Consumes {α : Type} (r : FileReader α) (n : Nat) : Prop :=
  ∀ (file : ReadableFile) (off : Nat) (a : α) (off' : Nat), off % BLOCK_SIZE + n ≤ BLOCK_SIZE →
    r file off = .ok (a, off') → off' = off + n

section Consumes

variable {α β : Type}

theorem consumes_pure (a : α) : Consumes (pure a) 0 := by
  intro file off b off' _ h
  cases h
  rfl

theorem consumes_lift (x : Except Status α) : Consumes (Reader.lift x) 0 := by
  intro file off a off' _ h
  exact (Reader.lift_ok h).2

theorem consumes_ensure (c : Bool) (e : Status) : Consumes (Reader.ensure c e) 0 := by
  intro file off a off' _ h
  cases c with
  | true =>
    cases h
    rfl
  | false => cases h

theorem Consumes.bind {r : FileReader α} {k : α → FileReader β} {n m : Nat} (hr : Consumes r n)
    (hk : ∀ a, Consumes (k a) m) : Consumes (r >>= k) (n + m) := by
  intro file off b off' hfit h
  obtain ⟨a, mid, hread, hrest⟩ := Reader.bind_eq_ok h
  have hmid : mid = off + n := hr file off a mid (by omega) hread
  subst hmid
  have hblock : BLOCK_SIZE = 4096 := rfl
  have hmod : (off + n) % BLOCK_SIZE + m ≤ BLOCK_SIZE := by
    rw [hblock] at hfit ⊢
    omega
  have hend : off' = off + n + m := hk a file _ b off' hmod hrest
  omega

theorem Consumes.offset {k : Nat → FileReader α} {n : Nat} (hk : ∀ off, Consumes (k off) n) :
    Consumes (Reader.offset >>= k) n := by
  intro file off a off' hfit h
  rw [Reader.offset_bind] at h
  exact hk off file off a off' hfit h

theorem consumes_u8 : Consumes (readU8 BLOCK_SIZE) 1 := by
  intro file off a off' hfit h
  exact (readU8_fits (by omega) h).1

theorem consumes_u32 : Consumes (readU32Le BLOCK_SIZE) 4 := by
  intro file off a off' hfit h
  exact (readU32Le_fits (by omega) h).1

theorem consumes_u64 : Consumes (readU64Le BLOCK_SIZE) 8 := by
  intro file off a off' hfit h
  exact (readU64Le_fits (by omega) h).1

theorem consumes_bytes (size : Nat) : Consumes (readBytes size BLOCK_SIZE) size := by
  intro file off a off' hfit h
  exact (readBytes_fits (by decide) (by omega) h).1

end Consumes

/-! ## Where the sections end -/

theorem IndexSection.Header.load_consumes : Consumes Header.load Header.diskSize :=
  .offset fun _ => (consumes_lift _).bind fun _ => consumes_u8.bind fun _ => consumes_u32.bind fun _ =>
    consumes_u32.bind fun _ => (consumes_lift _).bind fun _ => consumes_pure _

theorem BloomSection.Header.load_consumes : Consumes Header.load Header.diskSize :=
  .offset fun _ => (consumes_lift _).bind fun _ => consumes_u8.bind fun _ => (consumes_ensure _ _).bind fun _ =>
    consumes_u32.bind fun _ => (consumes_ensure _ _).bind fun _ => consumes_u32.bind fun _ => consumes_pure _

theorem BloomSection.Payload.load_consumes : Consumes Payload.load Payload.diskSize :=
  .offset fun _ => (consumes_lift _).bind fun _ => consumes_u64.bind fun _ => consumes_u32.bind fun _ =>
    consumes_u32.bind fun _ => (consumes_bytes _).bind fun _ => consumes_pure _

namespace MetaSection

theorem Header.load_consumes : Consumes Header.load Header.diskSize :=
  .offset fun _ => (consumes_lift _).bind fun _ => consumes_u8.bind fun _ => consumes_u32.bind fun _ =>
    consumes_u32.bind fun _ => (consumes_lift _).bind fun _ => consumes_pure _

theorem Fixed.read_consumes : Consumes Fixed.read Payload.fixedDiskSize :=
  consumes_u64.bind fun _ => consumes_u64.bind fun _ => consumes_u64.bind fun _ => consumes_u64.bind fun _ =>
    consumes_u32.bind fun _ => consumes_u32.bind fun _ => consumes_u64.bind fun _ => consumes_u64.bind fun _ =>
      consumes_pure _

theorem Fixed.readKeys_consumes (f : Fixed) : Consumes f.readKeys (f.minKeySize.toNat + f.maxKeySize.toNat) :=
  (consumes_bytes _).bind fun _ => (consumes_bytes _).bind fun _ => consumes_pure _

theorem fitsRead_consumes (size : Nat) : Consumes (fitsRead size) 0 := .offset fun _ => consumes_lift _

end MetaSection

theorem LoadM.read_consumes {α : Type} {file : ReadableFile} {r : FileReader α} {n : Nat} {a : α} {s s' : LoadState}
    (hr : Consumes r n) (hfit : s.offset % BLOCK_SIZE + n ≤ BLOCK_SIZE) (h : read file r s = (.ok a, s')) :
    s'.offset = s.offset + n :=
  hr file s.offset a s'.offset hfit (read_ok h).1

section

variable [Zlib]

theorem IndexSection.readSection_end {file : ReadableFile} {indexOffset expectedIndexSize : Nat} {s : IndexSection}
    {totalKeyBytes sectionEnd : Nat}
    (h : readSection file indexOffset expectedIndexSize false 0 0 = .ok (s, totalKeyBytes, sectionEnd)) :
    sectionEnd = indexOffset + (Header.diskSize + s.header.payloadSize.toNat) := by
  unfold readSection at h
  split at h
  · cases h
  obtain ⟨fileSize, -, h⟩ := except_bind_ok h
  split at h
  · cases h
  obtain ⟨⟨header, cursor⟩, -, h⟩ := except_bind_ok h
  obtain ⟨computedEnd, hextent, h⟩ := except_bind_ok h
  obtain ⟨encoded, -, h⟩ := except_bind_ok h
  obtain ⟨⟨parsed, total⟩, -, h⟩ := except_bind_ok h
  obtain ⟨_, -, h⟩ := except_bind_ok h
  dsimp only at h
  rw [if_neg Bool.false_ne_true] at h
  split at h
  · cases h
  cases h
  dsimp only
  unfold checkExtent at hextent
  split at hextent
  · cases hextent
  next sectionSize hsize =>
  split at hextent
  · cases hextent
  split at hextent
  · cases hextent
  next computed hcomputed =>
  split at hextent
  · cases hextent
  split at hextent
  · cases hextent
  cases hextent
  rw [checkedAdd_eq_some hcomputed, checkedAdd_eq_some hsize]

theorem IndexSection.validate_size {s : IndexSection} (h : s.validate = .ok ()) :
    s.header.payloadSize.toNat = (s.payloads.map Payload.diskSize).sum := by
  obtain ⟨total, htotal, h⟩ := except_bind_ok h
  obtain ⟨_, -, h⟩ := except_bind_ok h
  rw [← ((validatePayloadSequence_ok_iff _ _).mp htotal).2]
  split at h
  · cases h
  next hsize => exact not_not.mp hsize

theorem BloomSection.load_end {file : ReadableFile} {bloomOffset off cursor : Nat} {b : BloomSection}
    (h : load bloomOffset file off = .ok (b, cursor)) : cursor = bloomOffset + diskSize := by
  unfold load at h
  split at h
  · cases h
  next halign =>
  have hedge : bloomOffset % BLOCK_SIZE = 0 := not_not.mp halign
  obtain ⟨fileSize, -, h⟩ := except_bind_ok h
  obtain ⟨_, -, h⟩ := except_bind_ok h
  obtain ⟨⟨header, mid⟩, hheader, h⟩ := except_bind_ok h
  obtain ⟨⟨payload, last⟩, hpayload, h⟩ := except_bind_ok h
  dsimp only at h
  split at h
  · cases h
  obtain ⟨_, -, h⟩ := except_bind_ok h
  cases h
  have hmid : mid = bloomOffset + 9 := Header.load_consumes file _ _ _ (by rw [hedge]; decide) hheader
  have hfit : mid % BLOCK_SIZE + Payload.diskSize ≤ BLOCK_SIZE := by
    rw [hmid, Nat.add_mod, hedge]
    decide
  have hlast := Payload.load_consumes file _ _ _ hfit hpayload
  rw [hlast, hmid, Nat.add_assoc]
  rfl

namespace MetaSection

omit [Zlib] in
theorem Fixed.checkSizes_ok {f : Fixed} {header : Header} (h : f.checkSizes header = .ok ()) :
    Payload.fixedDiskSize + (f.minKeySize.toNat + f.maxKeySize.toNat) = header.payloadSize.toNat := by
  unfold checkSizes at h
  split at h
  · cases h
  next hsize =>
  have hsum := not_not.mp hsize
  omega

omit [Zlib] in
/-- The count of data blocks stands behind six of the fixed fields. -/
theorem Fixed.read_dataBlockCount {file : ReadableFile} {off off' : Nat} {f : Fixed}
    (hfit : off % BLOCK_SIZE + Payload.fixedDiskSize ≤ BLOCK_SIZE) (h : read file off = .ok (f, off')) :
    At file.bytes (off + 40) (u64Bytes f.dataBlockCount) := by
  have hfixed : Payload.fixedDiskSize = 56 := rfl
  have hblock : BLOCK_SIZE = 4096 := rfl
  rw [hblock] at hfit
  obtain ⟨recordCount, o₁, h₁, h⟩ := Reader.bind_eq_ok h
  obtain ⟨tombstoneCount, o₂, h₂, h⟩ := Reader.bind_eq_ok h
  obtain ⟨minSeqNum, o₃, h₃, h⟩ := Reader.bind_eq_ok h
  obtain ⟨maxSeqNum, o₄, h₄, h⟩ := Reader.bind_eq_ok h
  obtain ⟨minKeySize, o₅, h₅, h⟩ := Reader.bind_eq_ok h
  obtain ⟨maxKeySize, o₆, h₆, h⟩ := Reader.bind_eq_ok h
  obtain ⟨dataBlockCount, o₇, h₇, h⟩ := Reader.bind_eq_ok h
  obtain ⟨dataBytes, o₈, h₈, h⟩ := Reader.bind_eq_ok h
  cases h
  have e₁ : o₁ = off + 8 := consumes_u64 file _ _ _ (by rw [hblock]; omega) h₁
  have e₂ : o₂ = o₁ + 8 := consumes_u64 file _ _ _ (by rw [hblock]; omega) h₂
  have e₃ : o₃ = o₂ + 8 := consumes_u64 file _ _ _ (by rw [hblock]; omega) h₃
  have e₄ : o₄ = o₃ + 8 := consumes_u64 file _ _ _ (by rw [hblock]; omega) h₄
  have e₅ : o₅ = o₄ + 4 := consumes_u32 file _ _ _ (by rw [hblock]; omega) h₅
  have e₆ : o₆ = o₅ + 4 := consumes_u32 file _ _ _ (by rw [hblock]; omega) h₆
  have hat := (readU64Le_fits (by rw [hblock]; omega) h₇).2
  have hoff : o₆ = off + 40 := by omega
  rw [hoff] at hat
  exact hat

/-- The payload ends where its header says, and its counts are those of the fixed fields. -/
theorem Payload.load_ok {file : ReadableFile} {header : Header} {s s' : LoadState} {p : Payload}
    (hfit : s.offset % BLOCK_SIZE + header.payloadSize.toNat ≤ BLOCK_SIZE) (h : load file header s = (.ok p, s')) :
    s'.offset = s.offset + header.payloadSize.toNat ∧ At file.bytes (s.offset + 40) (u64Bytes p.dataBlockCount) := by
  obtain ⟨_, -, h⟩ := LoadM.check_bind_ok (LoadM.rollingBack_ok.mp h)
  obtain ⟨_, a, hfits, h⟩ := bind_eq_ok h
  obtain ⟨fixed, b, hfixed, h⟩ := bind_eq_ok h
  obtain ⟨_, hsizes, h⟩ := LoadM.check_bind_ok h
  have hsum := Fixed.checkSizes_ok hsizes
  have ha : a.offset = s.offset := LoadM.read_consumes (fitsRead_consumes _) (by omega) hfits
  have hroom : a.offset % BLOCK_SIZE + Payload.fixedDiskSize ≤ BLOCK_SIZE := by
    rw [ha]
    omega
  have hb : b.offset = a.offset + Payload.fixedDiskSize := LoadM.read_consumes Fixed.read_consumes hroom hfixed
  have hcount := Fixed.read_dataBlockCount hroom (LoadM.read_ok hfixed).1
  have hblock : BLOCK_SIZE = 4096 := rfl
  have hkeys : b.offset % BLOCK_SIZE + (fixed.minKeySize.toNat + fixed.maxKeySize.toNat) ≤ BLOCK_SIZE := by
    have hpart : b.offset = s.offset + Payload.fixedDiskSize := by omega
    rw [hpart]
    rw [hblock] at hfit ⊢
    omega
  have hrest : ∀ c : LoadState, c.offset = b.offset → (do
      let result ← LoadM.read file fixed.readKeys
      LoadM.ensure (result.calculateCrc32 == header.crc32) ⟨.checksumMismatch, "meta payload CRC mismatch"⟩
      LoadM.check result.validate
      pure result : LoadM Payload) c = (.ok p, s') →
        s'.offset = b.offset + (fixed.minKeySize.toNat + fixed.maxKeySize.toNat) ∧
          p.dataBlockCount = fixed.dataBlockCount := by
    intro c hc h
    obtain ⟨result, d, hread, h⟩ := bind_eq_ok h
    obtain ⟨-, h⟩ := LoadM.ensure_bind_ok h
    obtain ⟨_, -, h⟩ := LoadM.check_bind_ok h
    cases h
    rw [← hc] at hkeys ⊢
    refine ⟨LoadM.read_consumes fixed.readKeys_consumes hkeys hread, ?_⟩
    obtain ⟨minKey, _, -, hread⟩ := Reader.bind_eq_ok (LoadM.read_ok hread).1
    obtain ⟨maxKey, _, -, hread⟩ := Reader.bind_eq_ok hread
    cases hread
    rfl
  have hend : s'.offset = b.offset + (fixed.minKeySize.toNat + fixed.maxKeySize.toNat) ∧
      p.dataBlockCount = fixed.dataBlockCount := by
    split at h
    · obtain ⟨_, c, halloc, h⟩ := bind_eq_ok h
      exact hrest c (LoadM.alloc_offset halloc) h
    · exact hrest b rfl h
  rw [ha] at hcount
  rw [hend.2]
  exact ⟨by omega, hcount⟩

theorem validate_size {m : MetaSection} {index : IndexSection} (h : m.validate index = .ok ()) :
    m.header.payloadSize.toNat = m.payload.diskSize := by
  obtain ⟨_, -, h⟩ := except_bind_ok h
  obtain ⟨_, -, h⟩ := except_bind_ok h
  split at h
  · cases h
  next hsize => exact not_not.mp hsize

omit [Zlib] in
theorem Header.validate_size {h : Header} (hv : h.validate = .ok ()) :
    h.payloadSize.toNat ≤ BLOCK_SIZE - diskSize := by
  unfold validate at hv
  split at hv
  · cases hv
  split at hv
  · cases hv
  split at hv
  · cases hv
  omega

/-- The section ends behind its header and its payload. -/
theorem load_end {file : ReadableFile} {index : IndexSection} {metaOffset : Nat} {s s' : LoadState} {m : MetaSection}
    (hload : load file index metaOffset s = (.ok m, s')) :
    s'.offset = metaOffset + m.diskSize ∧ At file.bytes (metaOffset + 49) (u64Bytes m.payload.dataBlockCount) := by
  obtain ⟨halign, h⟩ := LoadM.ensure_bind_ok (LoadM.rollingBack_ok.mp hload)
  have hedge : metaOffset % BLOCK_SIZE = 0 := beq_iff_eq.mp halign
  obtain ⟨_, a, hset, h⟩ := bind_eq_ok h
  obtain ⟨header, b, hheader, h⟩ := bind_eq_ok h
  obtain ⟨payload, c, hpayload, h⟩ := bind_eq_ok h
  obtain ⟨_, hvalid, h⟩ := LoadM.check_bind_ok h
  cases h
  have ha : a.offset = metaOffset := by
    cases hset
    rfl
  have hb : b.offset = a.offset + 9 :=
    LoadM.read_consumes Header.load_consumes (by rw [ha, hedge]; decide) hheader
  obtain ⟨_, hheaderValid, -⟩ := except_bind_ok hvalid
  have hsize := Header.validate_size hheaderValid
  have hpayloadSize := validate_size hvalid
  have hnine : Header.diskSize = 9 := rfl
  have hblock : BLOCK_SIZE = 4096 := rfl
  have hfit : b.offset % BLOCK_SIZE + header.payloadSize.toNat ≤ BLOCK_SIZE := by
    rw [hb, ha]
    rw [hblock] at hedge hsize ⊢
    dsimp only at hsize
    omega
  obtain ⟨hend, hcount⟩ := Payload.load_ok hfit hpayload
  dsimp only at hpayloadSize
  rw [hb, ha, Nat.add_assoc] at hcount
  refine ⟨?_, hcount⟩
  rw [hend, hb, ha, hpayloadSize, Nat.add_assoc]
  rfl

end MetaSection

end

/-! ## The sums of the index and of the metadata -/

namespace IndexSection

theorem Payload.keyBytes_le (p : Payload) : p.keyBytes ≤ p.diskSize := by
  unfold keyBytes diskSize
  omega

theorem sum_keyBytes_le (ps : List Payload) : (ps.map Payload.keyBytes).sum ≤ (ps.map Payload.diskSize).sum := by
  induction ps with
  | nil => exact Nat.le_refl _
  | cons p ps ih =>
    have hp := p.keyBytes_le
    rw [List.map_cons, List.map_cons, List.sum_cons, List.sum_cons]
    omega

/-- The total behind some of the entries is not more than the total of all. -/
theorem sum_inits_le {ps qs : List Payload} (h : qs ∈ ps.inits) :
    (qs.map Payload.diskSize).sum ≤ (ps.map Payload.diskSize).sum := by
  obtain ⟨rest, rfl⟩ := (List.mem_inits qs ps).mp h
  rw [List.map_append, List.sum_append]
  omega

theorem diskSize_le_sum {ps : List Payload} {p : Payload} (h : p ∈ ps) :
    p.diskSize ≤ (ps.map Payload.diskSize).sum :=
  List.le_sum_of_mem (List.mem_map_of_mem h)

/-- An entry with another one behind it: the next block is at a 64-bit offset. -/
theorem next_lt {ps : List Payload} (h : ps.IsChain Next) {p : Payload} (hp : p ∈ ps.dropLast) :
    p.dataBlockOffset.toNat + BLOCK_SIZE < 2 ^ 64 := by
  induction ps with
  | nil => cases hp
  | cons q ps ih =>
    cases ps with
    | nil => cases hp
    | cons r ps =>
      obtain ⟨hnext, hchain⟩ := List.isChain_cons_cons.mp h
      rw [List.dropLast_cons_cons] at hp
      rcases List.mem_cons.mp hp with rfl | hp
      · have hlt := r.dataBlockOffset.toNat_lt
        have hoff := hnext.offset
        omega
      · exact ih hchain hp

theorem computed_lt {s : IndexSection} {indexOffset : Nat} (h : Sequence s.payloads)
    (hsize : s.header.payloadSize.toNat = (s.payloads.map Payload.diskSize).sum)
    (hend : indexOffset + (Header.diskSize + s.header.payloadSize.toNat) < 2 ^ 64) :
    ∀ n ∈ s.computed indexOffset, n < 2 ^ 64 := by
  have hfits := h.fits
  have hcapacity : kPayloadCapacity = 4087 := rfl
  intro n hn
  simp only [computed, List.mem_append, List.mem_cons, List.not_mem_nil, or_false, List.mem_map] at hn
  obtain ((((hn | ⟨p, hp, rfl⟩) | ⟨p, hp, rfl⟩) | ⟨qs, hqs, rfl⟩) | ⟨qs, hqs, rfl⟩) | ⟨p, hp,
      rfl⟩ := hn
  · omega
  · have hle := p.keyBytes_le
    have hsum := diskSize_le_sum hp
    omega
  · have hsum := diskSize_le_sum hp
    omega
  · have hle := sum_keyBytes_le qs
    have hsum := sum_inits_le hqs
    omega
  · have hsum := sum_inits_le hqs
    omega
  · exact next_lt h.chain hp

end IndexSection

namespace MetaSection

theorem Payload.validateDataBytes_ok {p : Payload} (h : p.validateDataBytes = .ok ()) :
    p.dataBlockCount.toNat * (DataSection.Header.diskSize + DataSection.Payload.fixedPartDiskSize) < 2 ^ 64 ∧
      p.dataBlockCount.toNat * BLOCK_SIZE < 2 ^ 64 := by
  unfold validateDataBytes at h
  dsimp only at h
  split at h
  next minimumDataBytes maximumDataBytes hmin hmax =>
    obtain ⟨rfl, hmin⟩ := DataSectionView.checkedMul_eq hmin
    obtain ⟨rfl, hmax⟩ := DataSectionView.checkedMul_eq hmax
    exact ⟨hmin, hmax⟩
  · cases h

/-- The bounds on the bytes of the data blocks, also for an empty table. -/
theorem Payload.validate_counts {p : Payload} (h : p.validate = .ok ()) :
    p.dataBlockCount.toNat * (DataSection.Header.diskSize + DataSection.Payload.fixedPartDiskSize) < 2 ^ 64 ∧
      p.dataBlockCount.toNat * BLOCK_SIZE < 2 ^ 64 := by
  unfold validate at h
  split at h
  · cases h
  split at h
  · cases h
  split at h
  · split at h
    · cases h
    next hcanonical =>
    have hzero : p.dataBlockCount = 0 := by
      by_contra hne
      exact hcanonical (by simp only [hne, ne_eq, not_false_eq_true, true_or, or_true])
    rw [hzero]
    decide
  · unfold validateNonempty at h
    iterate 4
      split at h
      · cases h
    exact validateDataBytes_ok h

theorem computed_lt {m : MetaSection} {metaOffset : Nat} (h : m.payload.validate = .ok ())
    (hend : metaOffset + m.diskSize < 2 ^ 64) : ∀ n ∈ m.computed metaOffset, n < 2 ^ 64 := by
  obtain ⟨hmin, hmax⟩ := Payload.validate_counts h
  have hsize : m.diskSize = Header.diskSize + (Payload.fixedDiskSize + m.payload.minKey.size +
      m.payload.maxKey.size) := rfl
  have hpayload : m.payload.diskSize = Payload.fixedDiskSize + m.payload.minKey.size + m.payload.maxKey.size := rfl
  intro n hn
  simp only [computed, List.mem_cons, List.not_mem_nil, or_false] at hn
  obtain rfl | rfl | rfl | rfl | rfl | rfl := hn
  · omega
  · omega
  · omega
  · exact hend
  · exact hmin
  · exact hmax

end MetaSection

/-! ## The layout -/

namespace SSTable

variable [Zlib]

/-- What the loaders of the index and of the metadata say about the sizes, and where the block count of the metadata
stands. -/
theorem loadSections_sizes {file : ReadableFile} {s s' : LoadState} {t : LoadedTable}
    (h : loadSections file s = (.ok t, s')) :
    t.indexSection.validate = .ok () ∧ t.metaSection.diskSize = t.fileFooterSection.metaSize.toNat ∧
      At file.bytes (t.fileFooterSection.metaOffset.toNat + 49) (u64Bytes t.metaSection.payload.dataBlockCount) := by
  obtain ⟨⟨header, headerCursor⟩, -, h⟩ := LoadM.check_bind_ok h
  obtain ⟨⟨footer, footerCursor⟩, -, h⟩ := LoadM.check_bind_ok h
  obtain ⟨_, -, h⟩ := LoadM.check_bind_ok h
  obtain ⟨⟨view, viewCursor⟩, -, h⟩ := LoadM.check_bind_ok h
  obtain ⟨-, h⟩ := LoadM.ensure_bind_ok h
  obtain ⟨⟨indexEnd, bloomEnd, metaEnd⟩, hends, h⟩ := LoadM.check_bind_ok h
  obtain ⟨⟨index, indexCursor⟩, s₁, hindex, h⟩ := bind_eq_ok h
  obtain ⟨-, h⟩ := LoadM.ensure_bind_ok h
  obtain ⟨⟨bloom, bloomCursor⟩, -, h⟩ := LoadM.check_bind_ok h
  obtain ⟨-, h⟩ := LoadM.ensure_bind_ok h
  obtain ⟨⟨metadata, metaCursor⟩, s₂, hmeta, h⟩ := bind_eq_ok h
  obtain ⟨hmetaEnd, h⟩ := LoadM.ensure_bind_ok h
  cases h
  have hdeclared : metaEnd = footer.metaOffset.toNat + footer.metaSize.toNat := by
    unfold declaredEnds at hends
    split at hends
    next i b m hi hb hm =>
      cases hends
      exact IndexSection.checkedAdd_eq_some hm
    · cases hends
  obtain ⟨u, hindexLoad, -, -⟩ := LoadM.withCursor_ok hindex
  obtain ⟨u', hmetaLoad, hcursor, -⟩ := LoadM.withCursor_ok hmeta
  obtain ⟨hend, hcount⟩ := MetaSection.load_end hmetaLoad
  dsimp only at hcursor hend hmetaEnd
  rw [beq_iff_eq] at hmetaEnd
  refine ⟨(IndexSection.loadImpl_ok hindexLoad).2, ?_, hcount⟩
  show metadata.diskSize = footer.metaSize.toNat
  omega

namespace Inspected

variable {file : ReadableFile} {t : LoadedTable} {footerOffset : Nat} (h : Inspected file t footerOffset)
include h

theorem fileSize_lt : file.bytes.length < 2 ^ 64 := by
  have hsize := h.layout.size
  have hlt := t.fileFooterSection.fileSize.toNat_lt
  have hlen := h.size
  omega

/-- The data blocks end in front of the index. -/
theorem dataEnd_le :
    t.fileFooterSection.dataOffset.toNat + t.fileFooterSection.dataBlockCount.toNat * BLOCK_SIZE ≤
      t.fileFooterSection.indexOffset.toNat := by
  by_cases hcount : t.fileFooterSection.dataBlockCount = 0
  · have hle := h.layout.empty hcount
    rw [hcount]
    show t.fileFooterSection.dataOffset.toNat + 0 * BLOCK_SIZE ≤ _
    omega
  · exact (h.layout.data hcount).2.le

/-- The blocks lie one behind the other from the data offset of the footer on. -/
theorem blockExtents_eq : t.blockExtents = (List.range t.fileFooterSection.dataBlockCount.toNat).map fun i =>
    .ofSize (t.fileFooterSection.dataOffset.toNat + i * BLOCK_SIZE) BLOCK_SIZE := by
  obtain ⟨cursor, hblocks⟩ := h.blocks
  obtain ⟨hlen, hconsecutive, -⟩ := DataSectionView.load_ok hblocks
  have hsame : t.blockExtents.length = t.fileFooterSection.dataBlockCount.toNat := by
    rw [LoadedTable.blockExtents, List.length_map, hlen]
  apply List.ext_getElem
  · rw [hsame, List.length_map, List.length_range]
  · intro i hi hi'
    rw [hsame, ← hlen] at hi
    have hblock := hconsecutive i t.dataSectionView.dataBlocks[i] (List.getElem?_eq_getElem hi)
    simp only [LoadedTable.blockExtents, List.getElem_map, List.getElem_range, Extent.ofSize]
    rw [hblock.2.2.2.2, hblock.1]

theorem mem_blockExtents {e : Extent} (he : e ∈ t.blockExtents) :
    t.fileFooterSection.dataOffset.toNat ≤ e.first ∧ e.limit = e.first + BLOCK_SIZE ∧
      e.limit ≤ t.fileFooterSection.indexOffset.toNat := by
  have hend := h.dataEnd_le
  rw [h.blockExtents_eq] at he
  obtain ⟨i, hi, rfl⟩ := List.mem_map.mp he
  have hlt := List.mem_range.mp hi
  have hmul := Nat.mul_le_mul_right BLOCK_SIZE (Nat.succ_le_of_lt hlt)
  rw [Nat.succ_mul] at hmul
  refine ⟨Nat.le_add_right _ _, rfl, ?_⟩
  show t.fileFooterSection.dataOffset.toNat + i * BLOCK_SIZE + BLOCK_SIZE ≤ _
  omega

theorem blockExtents_ordered : t.blockExtents.Pairwise Extent.Before := by
  rw [h.blockExtents_eq]
  apply List.pairwise_map.mpr
  refine List.pairwise_lt_range.imp fun {i j} hij => ?_
  have hmul := Nat.mul_le_mul_right BLOCK_SIZE (Nat.succ_le_of_lt hij)
  rw [Nat.succ_mul] at hmul
  show t.fileFooterSection.dataOffset.toNat + i * BLOCK_SIZE + BLOCK_SIZE ≤
    t.fileFooterSection.dataOffset.toNat + j * BLOCK_SIZE
  omega

theorem index_size (hindex : t.indexSection.validate = .ok ()) :
    t.indexSection.diskSize = t.fileFooterSection.indexSize.toNat := by
  obtain ⟨total, hread⟩ := h.index
  have hend := IndexSection.readSection_end hread
  rw [IndexSection.diskSize, ← IndexSection.validate_size hindex]
  omega

theorem bloom_size : BloomSection.diskSize = t.fileFooterSection.bloomSize.toNat := by
  have hend := BloomSection.load_end h.bloom
  omega

/-- The sections behind the data blocks, as the footer declares them. -/
theorem tailExtents_eq (hindex : t.indexSection.validate = .ok ())
    (hmeta : t.metaSection.diskSize = t.fileFooterSection.metaSize.toNat) :
    t.tailExtents file.bytes.length =
      [.ofSize t.fileFooterSection.indexOffset.toNat t.fileFooterSection.indexSize.toNat,
        .ofSize t.fileFooterSection.bloomOffset.toNat t.fileFooterSection.bloomSize.toNat,
        .ofSize t.fileFooterSection.metaOffset.toNat t.fileFooterSection.metaSize.toNat,
        .ofSize footerOffset FileFooterSection.diskSize] := by
  rw [LoadedTable.tailExtents, h.index_size hindex, h.bloom_size, hmeta, h.size, Nat.add_sub_cancel]

/-- A section behind the data blocks. -/
theorem mem_tailExtents (hindex : t.indexSection.validate = .ok ())
    (hmeta : t.metaSection.diskSize = t.fileFooterSection.metaSize.toNat) {e : Extent}
    (he : e ∈ t.tailExtents file.bytes.length) :
    t.fileFooterSection.indexOffset.toNat ≤ e.first ∧ e.first < e.limit ∧ e.limit ≤ file.bytes.length := by
  rw [h.tailExtents_eq hindex hmeta] at he
  have hsize := h.size
  have hi := h.layout.indexEnd
  have hb := h.layout.bloomEnd
  have hm := h.layout.metaEnd
  have hindexSize : 9 ≤ t.fileFooterSection.indexSize.toNat := h.layout.indexSize
  have hbloomSize : t.fileFooterSection.bloomSize.toNat = 153 := h.layout.bloomSize
  have hmetaSize : 65 ≤ t.fileFooterSection.metaSize.toNat := h.layout.metaSize.1
  have hfooter : FileFooterSection.diskSize = 76 := rfl
  simp only [List.mem_cons, List.not_mem_nil, or_false] at he
  obtain rfl | rfl | rfl | rfl := he <;> simp only [Extent.ofSize] <;> omega

theorem tailExtents_ordered (hindex : t.indexSection.validate = .ok ())
    (hmeta : t.metaSection.diskSize = t.fileFooterSection.metaSize.toNat) :
    (t.tailExtents file.bytes.length).Pairwise Extent.Before := by
  rw [h.tailExtents_eq hindex hmeta]
  have hi := h.layout.indexEnd
  have hb := h.layout.bloomEnd
  have hm := h.layout.metaEnd
  simp only [List.pairwise_cons, List.mem_cons, List.not_mem_nil, or_false, forall_eq_or_imp, forall_eq, false_imp_iff,
    implies_true, List.Pairwise.nil, and_true, Extent.Before, Extent.ofSize]
  omega

theorem ordered (hindex : t.indexSection.validate = .ok ())
    (hmeta : t.metaSection.diskSize = t.fileFooterSection.metaSize.toNat) :
    (t.extents file.bytes.length).Pairwise Extent.Before := by
  have hheader := h.header
  have hend := h.dataEnd_le
  apply List.pairwise_cons.mpr
  refine ⟨?_, ?_⟩
  · intro e he
    show 0 + FileHeaderSection.diskSize ≤ e.first
    rcases List.mem_append.mp he with hblock | htail
    · have hfirst := (h.mem_blockExtents hblock).1
      omega
    · have hfirst := (h.mem_tailExtents hindex hmeta htail).1
      omega
  · apply List.pairwise_append.mpr
    refine ⟨h.blockExtents_ordered, h.tailExtents_ordered hindex hmeta, ?_⟩
    intro a ha b hb
    have hlimit := (h.mem_blockExtents ha).2.2
    have hfirst := (h.mem_tailExtents hindex hmeta hb).1
    show a.limit ≤ b.first
    omega

/-- Every part is inside the file and not empty. -/
theorem mem_extents (hindex : t.indexSection.validate = .ok ())
    (hmeta : t.metaSection.diskSize = t.fileFooterSection.metaSize.toNat) {e : Extent}
    (he : e ∈ t.extents file.bytes.length) : e.first < e.limit ∧ e.limit ≤ file.bytes.length := by
  have hfooter : FileFooterSection.diskSize = 76 := rfl
  have hheader : FileHeaderSection.diskSize = 24 := rfl
  have hblockSize : BLOCK_SIZE = 4096 := rfl
  have hsize := h.size
  have hi := h.layout.indexEnd
  have hb := h.layout.bloomEnd
  have hm := h.layout.metaEnd
  rcases List.mem_cons.mp he with rfl | he
  · have hdata := h.header
    have hend := h.dataEnd_le
    show 0 < 0 + FileHeaderSection.diskSize ∧ 0 + FileHeaderSection.diskSize ≤ _
    omega
  · rcases List.mem_append.mp he with hblock | htail
    · obtain ⟨-, hlimit, hle⟩ := h.mem_blockExtents hblock
      omega
    · exact (h.mem_tailExtents hindex hmeta htail).2

theorem footer_computed_lt : ∀ n ∈ t.fileFooterSection.computed file.bytes.length, n < 2 ^ 64 := by
  have hlt := h.fileSize_lt
  have hsize := h.size
  have hend := h.dataEnd_le
  have hi := h.layout.indexEnd
  have hb := h.layout.bloomEnd
  have hm := h.layout.metaEnd
  intro n hn
  simp only [FileFooterSection.computed, List.mem_cons, List.not_mem_nil, or_false] at hn
  obtain rfl | rfl | rfl | rfl | rfl | rfl := hn <;> omega

theorem blocks_computed_lt :
    ∀ n ∈ t.dataSectionView.dataBlocks.flatMap (fun b => b.headerView.computed), n < 2 ^ 64 := by
  have hlt := h.fileSize_lt
  have hsize := h.size
  have hi := h.layout.indexEnd
  have hb := h.layout.bloomEnd
  have hm := h.layout.metaEnd
  intro n hn
  obtain ⟨b, hmem, hn⟩ := List.mem_flatMap.mp hn
  obtain ⟨cursor, hblocks⟩ := h.blocks
  obtain ⟨i, hi', rfl⟩ := List.mem_iff_getElem.mp hmem
  have hblock := (DataSectionView.load_ok hblocks).2.1 i _ (List.getElem?_eq_getElem hi')
  have hlimit := (h.mem_blockExtents (List.mem_map_of_mem hmem)).2.2
  obtain ⟨-, hpayload, hpayloadEnd, hroom, hnext⟩ := hblock
  dsimp only at hlimit
  simp only [DataSectionView.Header.computed, List.mem_cons, List.not_mem_nil, or_false] at hn
  obtain rfl | rfl | rfl := hn <;> omega

/-- No sum and no product left the 64 bits. -/
theorem computed_lt (hindex : t.indexSection.validate = .ok ())
    (hmeta : t.metaSection.diskSize = t.fileFooterSection.metaSize.toNat) :
    ∀ n ∈ t.computed file.bytes.length, n < 2 ^ 64 := by
  have hlt := h.fileSize_lt
  have hsize := h.size
  have hi := h.layout.indexEnd
  have hb := h.layout.bloomEnd
  have hm := h.layout.metaEnd
  have hbloomSize := h.bloom_size
  have hindexSize := h.index_size hindex
  have hpayloadSize := IndexSection.validate_size hindex
  obtain ⟨_, -, hvalid⟩ := except_bind_ok h.metadata
  obtain ⟨_, hpayload, -⟩ := except_bind_ok hvalid
  intro n hn
  simp only [LoadedTable.computed, List.mem_append, List.mem_cons, List.not_mem_nil, or_false] at hn
  obtain (((hn | hn) | hn) | rfl) | hn := hn
  · exact h.footer_computed_lt n hn
  · exact h.blocks_computed_lt n hn
  · refine IndexSection.computed_lt h.sequence hpayloadSize ?_ n hn
    rw [IndexSection.diskSize, ← hpayloadSize] at hindexSize
    omega
  · omega
  · exact MetaSection.computed_lt hpayload (by omega) n hn

end Inspected

omit [Zlib] in
/-- A read that succeeds ends inside the file. -/
theorem readExactAt_le {file : ReadableFile} {size off off' : Nat} {d : List UInt8}
    (h : readExactAt size file off = .ok (d, off')) : off' = off ∨ off' ≤ file.bytes.length := by
  unfold readExactAt at h
  split at h
  · cases h
    exact .inl rfl
  next hsize =>
  split at h
  · cases h
  split at h
  next data hread =>
    cases h
    obtain ⟨hat, hlen⟩ := at_of_readAt hread
    have hle := hat.end_le (List.ne_nil_of_length_pos (by omega))
    right
    omega
  · cases h

/-- The parts of an accepted table lie one behind the other in the file, the footer at its end, and nothing that was
computed on the way wrapped around. -/
theorem load_sound_layout {path : List UInt8} {opened : Except Status ReadableFile} {s s' : LoadState} {t : LoadedTable}
    (h : load path opened s = (.ok t, s')) : ∃ file, opened = .ok file ∧ t.SoundLayout file := by
  obtain ⟨file, hopened, hsections⟩ := load_ok h
  obtain ⟨footerOffset, hi⟩ := loadSections_ok hsections
  obtain ⟨hindex, hmeta, -⟩ := loadSections_sizes hsections
  have hordered := hi.ordered hindex hmeta
  have hlt := hi.fileSize_lt
  refine ⟨file, hopened, ?_⟩
  constructor
  case ordered => exact hordered
  case disjoint => exact hordered.imp Extent.Before.disjoint
  case nonempty => exact fun e he => (hi.mem_extents hindex hmeta he).1
  case inside => exact fun e he => (hi.mem_extents hindex hmeta he).2
  case count => rw [hi.blockExtents_eq, List.length_map, List.length_range]
  case index => exact hi.index_size hindex
  case bloom => exact hi.bloom_size
  case metadata => exact hmeta
  case footer =>
    have hsize := hi.size
    have hend : file.bytes.length - FileFooterSection.diskSize + FileFooterSection.diskSize = file.bytes.length := by
      omega
    rw [LoadedTable.extents, LoadedTable.tailExtents, ← List.cons_append]
    simp only [List.getLast?_append, List.getLast?_cons_cons, List.getLast?_singleton, Option.some_or,
      Extent.ofSize, hend]
  case computed => exact hi.computed_lt hindex hmeta
  case cursors =>
    intro size off d off' hoff hread
    rcases readExactAt_le hread with rfl | hle
    · exact hoff
    · omega

end SSTable

theorem load_sound_layout_fourRecords : let _ := documentedZlib
    ∃ t' w' t s', twoBlockBuilt.write quietCalls ⟨[], 0, none, ⟨.ioError, ""⟩⟩ = (.ok t', w') ∧
      SSTable.load t'.path (.ok (.ofBytes w'.bytes "a")) freshLoad = (.ok t, s') ∧
      ∃ file, Except.ok (.ofBytes w'.bytes "a") = (.ok file : Except Status ReadableFile) ∧ t.SoundLayout file := by
  intro
  obtain ⟨t', w', s', hwrite, hload⟩ := twoBlockBuilt_loads
  exact ⟨t', w', _, s', hwrite, hload, SSTable.load_sound_layout hload⟩

end Kvdb
