import Kvdb.SSTable.BlockLookup

/-!
# The table iterator

`SSTableIterator` (`core/sstable_infra/sstable_iterator.cpp`) decodes a whole block
at once, with its own parser.  `readBlock` is that parser; `readBlock_ok_iff` says
what it accepts: the payload is the concatenation of one or more records, with the
checksum of their fields.  It looks at no type, flag or order, so it accepts more
than `DataBlock::validate`, which is where the two decoders part
(`decoders_agree_iff`).
-/

namespace Kvdb

open Faulty Bytes DataSection DataSection.Payload DataSectionView

namespace SSTableIterator

/-! ## One block -/

/-- The fixed part of a record. -/
def readFixed : FileReader Fixed := do
  let keySize ← readU32Le BLOCK_SIZE
  let valueSize ← readU32Le BLOCK_SIZE
  let type ← readU8 BLOCK_SIZE
  let flags ← readU32Le BLOCK_SIZE
  let reserved ← readU32Le BLOCK_SIZE
  let seqNum ← readU64Le BLOCK_SIZE
  pure ⟨keySize, valueSize, type, flags, reserved, seqNum⟩

/-- The lengths of a record fit into what is left of the payload. -/
def sizesFit (f : Fixed) (remaining : Nat) : Bool :=
  !(decide (f.keySize.toNat > remaining) || decide (f.valueSize.toNat > remaining - f.keySize.toNat))

/-- One round of the record loop of `load_next_block`. -/
def readPayload (payloadEnd : Nat) : FileReader Payload := do
  let recordStart ← Reader.offset
  Reader.ensure (decide (fixedPartDiskSize ≤ payloadEnd - recordStart))
    ⟨.corruption, "Not enough bytes for payload fixed part"⟩
  let f ← readFixed
  let offset ← Reader.offset
  Reader.ensure (sizesFit f (payloadEnd - offset))
    ⟨.corruption, "Invalid payload sizes: key_size=" ++ toString f.keySize ++ ", value_size=" ++ toString f.valueSize
      ++ ", record_offset=" ++ toString recordStart⟩
  let key ← readBytes f.keySize.toNat BLOCK_SIZE
  let value ← readBytes f.valueSize.toNat BLOCK_SIZE
  pure ⟨.ofTake key f.keySize, .ofTake value f.valueSize, f.type, f.flags, f.reserved, f.seqNum⟩

/-- The record loop. -/
def recordLoop (payloadEnd : Nat) : Nat → FileReader (List Payload)
  | 0 => pure []
  | fuel + 1 => fun file offset =>
    if offset < payloadEnd then
      (do
        let p ← readPayload payloadEnd
        let ps ← recordLoop payloadEnd fuel
        pure (p :: ps) : FileReader (List Payload)) file offset
    else .ok ([], offset)

variable [Zlib]

/-- What follows the block header: the records and their checks. -/
def readRecords (blockStart : Nat) (header : DataSection.Header) : FileReader (List Payload) := do
  Reader.ensure (decide (header.payloadDiskSize.toNat ≤ PAYLOAD_CAPACITY))
    ⟨.invalidPayloadSize, "Data block payload size exceeds block capacity"⟩
  let payloadStart ← Reader.offset
  Reader.ensure (decide (payloadStart + header.payloadDiskSize.toNat ≤ blockStart + BLOCK_SIZE))
    ⟨.offsetOverlap, "Data block payload overlaps block boundary"⟩
  let ps ← recordLoop (payloadStart + header.payloadDiskSize.toNat) BLOCK_SIZE
  let stop ← Reader.offset
  Reader.ensure (stop == payloadStart + header.payloadDiskSize.toNat)
    ⟨.corruption, "Payload parser did not stop exactly at payload_end"⟩
  Reader.ensure (calculateCrc32 ps == header.crc32)
    ⟨.checksumMismatch, "Data block CRC mismatch: expected=" ++ toString header.crc32 ++ ", actual="
      ++ toString (calculateCrc32 ps)⟩
  Reader.ensure (!ps.isEmpty) ⟨.corruption, "Loaded empty data block"⟩
  pure ps

/-- The block at the offset, as `load_next_block` reads it. -/
def readBlock : FileReader (List Payload) := do
  let blockStart ← Reader.offset
  Reader.ensure (blockStart % BLOCK_SIZE == 0) ⟨.invalidBlockAlignment, "Data block offset is not aligned"⟩
  let type ← readU8 BLOCK_SIZE
  Reader.ensure (type == BlockType.data.toU8)
    ⟨.invalidBlockType, "Block type mismatch during reading at offset " ++ toString blockStart⟩
  let payloadDiskSize ← readU32Le BLOCK_SIZE
  let crc32 ← readU32Le BLOCK_SIZE
  readRecords blockStart ⟨type, payloadDiskSize, crc32⟩

end SSTableIterator

/-- The place of an iterator in its table.  A failed load leaves it invalid, so the offset reached
in the block is not looked at again. -/
structure SSTableIterator where
  currentOffset : Nat
  nextBlockIndex : Nat := 0
  recordIndex : Nat := 0
  currentBlockRecords : List StoredRecord := []
  valid : Bool := false
  status : Option Status := none
deriving DecidableEq

namespace SSTableIterator

variable [Zlib]

/-- `SSTableIterator::load_next_block`, in a table of `dataBlockCount` blocks. -/
def loadNextBlock (dataBlockCount : Nat) (file : ReadableFile) : Prog SSTableIterator Status Unit := fun it =>
  if it.nextBlockIndex ≥ dataBlockCount then
    (.ok (), ⟨it.currentOffset, it.nextBlockIndex, 0, [], false, it.status⟩)
  else
    match readBlock file it.currentOffset with
    | .error e => (.err e, ⟨it.currentOffset, it.nextBlockIndex, 0, [], false, it.status⟩)
    | .ok (ps, _) =>
      (.ok (), ⟨it.currentOffset + BLOCK_SIZE, it.nextBlockIndex + 1, 0, ps.map record, true, it.status⟩)

/-! ## What the parser accepts -/

section

omit [Zlib]

/-- The bytes from `lo` to `hi` lie in one block. -/
def OneBlock (lo hi : Nat) : Prop :=
  ∀ offset n, 0 < n → lo ≤ offset → offset + n ≤ hi → n ≤ BLOCK_SIZE - offset % BLOCK_SIZE

theorem oneBlock_of_fits {lo size : Nat} (h : size ≤ BLOCK_SIZE - lo % BLOCK_SIZE) : OneBlock lo (lo + size) := by
  intro offset n hn hlo hhi
  have hpart := fits_part (k := offset - lo) h hn (by omega)
  rwa [Nat.add_sub_cancel' hlo] at hpart

variable {file : ReadableFile} {lo payloadEnd off : Nat}

theorem readFixed_decodes (f : Fixed) : Decodes BLOCK_SIZE readFixed f.encode f := by
  have h1 : 1 ≤ BLOCK_SIZE := by decide
  have h4 : 4 ≤ BLOCK_SIZE := by decide
  have h8 : 8 ≤ BLOCK_SIZE := by decide
  unfold readFixed Fixed.encode
  exact (decodes_u32 h4 _).bind ((decodes_u32 h4 _).bind ((decodes_u8 h1 _).bind ((decodes_u32 h4 _).bind
    ((decodes_u32 h4 _).bind ((decodes_u64 h8 _).last (decodes_pure _))))))

theorem readFixed_fits {off' : Nat} {f : Fixed} (hfit : 25 ≤ BLOCK_SIZE - off % BLOCK_SIZE)
    (h : readFixed file off = .ok (f, off')) : off' = off + fixedPartDiskSize ∧ At file.bytes off f.encode := by
  have hpart : ∀ k m, 0 < m → k + m ≤ 25 → m ≤ BLOCK_SIZE - (off + k) % BLOCK_SIZE :=
    fun k m hm hkm => fits_part hfit hm hkm
  unfold readFixed at h
  obtain ⟨keySize, o1, h1, h⟩ := Reader.bind_eq_ok h
  obtain ⟨valueSize, o2, h2, h⟩ := Reader.bind_eq_ok h
  obtain ⟨type, o3, h3, h⟩ := Reader.bind_eq_ok h
  obtain ⟨flags, o4, h4, h⟩ := Reader.bind_eq_ok h
  obtain ⟨reserved, o5, h5, h⟩ := Reader.bind_eq_ok h
  obtain ⟨seqNum, o6, h6, h⟩ := Reader.bind_eq_ok h
  cases h
  obtain ⟨rfl, a1⟩ := readU32Le_fits (hpart 0 4 (by omega) (by omega)) h1
  obtain ⟨rfl, a2⟩ := readU32Le_fits (hpart 4 4 (by omega) (by omega)) h2
  obtain ⟨rfl, a3⟩ := readU8_fits (hpart 8 1 (by omega) (by omega)) h3
  obtain ⟨rfl, a4⟩ := readU32Le_fits (hpart 9 4 (by omega) (by omega)) h4
  obtain ⟨rfl, a5⟩ := readU32Le_fits (hpart 13 4 (by omega) (by omega)) h5
  obtain ⟨rfl, a6⟩ := readU64Le_fits (hpart 17 8 (by omega) (by omega)) h6
  refine ⟨rfl, ?_⟩
  refine a1.append ?_
  rw [length_u32Bytes]
  refine a2.append ?_
  rw [length_u32Bytes]
  refine a3.append ?_
  rw [length_u8Bytes]
  refine a4.append ?_
  rw [length_u32Bytes]
  refine a5.append ?_
  rw [length_u32Bytes]
  exact a6

theorem readPayload_at (hf : file.Sound) (hblock : OneBlock lo payloadEnd) (hlo : lo ≤ off) {p : Payload}
    (hat : At file.bytes off p.encode) (hend : off + p.diskSize ≤ payloadEnd) :
    readPayload payloadEnd file off = .ok (p, off + p.diskSize) := by
  have hdisk : p.diskSize = 25 + p.key.bytes.length + p.value.bytes.length := rfl
  have hk : p.key.size32.toNat = p.key.bytes.length := ArenaEntry.size32_toNat p.key
  have hv : p.value.size32.toNat = p.value.bytes.length := ArenaEntry.size32_toNat p.value
  have hfits : ∀ (d : List UInt8) (o : Nat), lo ≤ o → o + d.length ≤ payloadEnd →
      d = [] ∨ d.length ≤ BLOCK_SIZE - o % BLOCK_SIZE := by
    intro d o h1 h2
    by_cases h0 : d = []
    · exact .inl h0
    · exact .inr (hblock o d.length (List.length_pos_iff.mpr h0) h1 h2)
  rw [encode_eq] at hat
  have hkv := hat.right
  rw [length_fixed] at hkv
  have hfixed := readFixed_decodes p.fixed file off hf
    (hfits _ off hlo (by rw [length_fixed, fixedPartDiskSize]; omega)) hat.left
  rw [length_fixed] at hfixed
  have hkey := decodes_bytes (by decide) p.key.bytes file _ hf
    (hfits p.key.bytes (off + fixedPartDiskSize) (by omega) (by rw [fixedPartDiskSize]; omega)) hkv.left
  have hvalue := decodes_bytes (by decide) p.value.bytes file _ hf
    (hfits p.value.bytes (off + fixedPartDiskSize + p.key.bytes.length) (by omega)
      (by rw [fixedPartDiskSize]; omega)) hkv.right
  have hsizes : sizesFit p.fixed (payloadEnd - (off + fixedPartDiskSize)) = true := by
    unfold sizesFit
    have h1 : ¬ p.fixed.keySize.toNat > payloadEnd - (off + fixedPartDiskSize) := by
      show ¬ p.key.size32.toNat > _
      rw [hk, fixedPartDiskSize]
      omega
    have h2 : ¬ p.fixed.valueSize.toNat > payloadEnd - (off + fixedPartDiskSize) - p.fixed.keySize.toNat := by
      show ¬ p.value.size32.toNat > _ - p.key.size32.toNat
      rw [hk, hv, fixedPartDiskSize]
      omega
    rw [decide_eq_false h1, decide_eq_false h2]
    rfl
  unfold readPayload
  rw [Reader.offset_bind, Reader.ensure_bind (decide_eq_true (by rw [fixedPartDiskSize]; omega)),
    Reader.bind_ok hfixed, Reader.offset_bind, Reader.ensure_bind hsizes]
  have hks : p.fixed.keySize.toNat = p.key.bytes.length := hk
  have hvs : p.fixed.valueSize.toNat = p.value.bytes.length := hv
  rw [hks, Reader.bind_ok hkey, hvs, Reader.bind_ok hvalue]
  show Except.ok (Payload.mk (.ofTake p.key.bytes p.key.size32) (.ofTake p.value.bytes p.value.size32) p.type p.flags
    p.reserved p.seqNum, off + fixedPartDiskSize + p.key.bytes.length + p.value.bytes.length) = _
  rw [ofTake_self, ofTake_self, hdisk, fixedPartDiskSize]
  congr 2
  omega

theorem readBytes_in {off' size : Nat} {d : List UInt8} (hblock : OneBlock lo payloadEnd) (hlo : lo ≤ off)
    (hend : off + size ≤ payloadEnd) (h : readBytes size BLOCK_SIZE file off = .ok (d, off')) :
    off' = off + size ∧ At file.bytes off d ∧ d.length = size := by
  by_cases h0 : size = 0
  · rw [h0] at h
    exact readBytes_fits (by decide) (by omega) (h0 ▸ h)
  · exact readBytes_fits (by decide) (hblock off size (by omega) hlo hend) h

theorem readPayload_ok (hblock : OneBlock lo payloadEnd) (hlo : lo ≤ off) {p : Payload} {off' : Nat}
    (h : readPayload payloadEnd file off = .ok (p, off')) :
    At file.bytes off p.encode ∧ off' = off + p.diskSize ∧ off' ≤ payloadEnd := by
  unfold readPayload at h
  rw [Reader.offset_bind] at h
  obtain ⟨hroom, h⟩ := Reader.ensure_bind_eq_ok h
  have hroom : 25 ≤ payloadEnd - off := of_decide_eq_true hroom
  obtain ⟨f, o1, h1, h⟩ := Reader.bind_eq_ok h
  obtain ⟨rfl, hfixed⟩ := readFixed_fits (hblock off 25 (by omega) hlo (by omega)) h1
  rw [Reader.offset_bind] at h
  obtain ⟨hsizes, h⟩ := Reader.ensure_bind_eq_ok h
  obtain ⟨key, o2, h2, h⟩ := Reader.bind_eq_ok h
  obtain ⟨value, o3, h3, h⟩ := Reader.bind_eq_ok h
  cases h
  unfold sizesFit at hsizes
  simp only [Bool.not_or, Bool.and_eq_true, Bool.not_eq_true', decide_eq_false_iff_not] at hsizes
  obtain ⟨hks, hvs⟩ := hsizes
  rw [fixedPartDiskSize] at hks hvs h2
  obtain ⟨rfl, hkey, hklen⟩ := readBytes_in hblock (by omega) (by omega) h2
  obtain ⟨rfl, hvalue, hvlen⟩ := readBytes_in hblock (by omega) (by omega) h3
  have hkt : key.take f.keySize.toNat = key := List.take_of_length_le (by omega)
  have hvt : value.take f.valueSize.toNat = value := List.take_of_length_le (by omega)
  have hk32 : (ArenaEntry.ofTake key f.keySize).size32 = f.keySize := by
    refine UInt32.toNat_inj.mp ?_
    rw [ArenaEntry.size32_toNat]
    show (key.take f.keySize.toNat).length = _
    rw [hkt, hklen]
  have hv32 : (ArenaEntry.ofTake value f.valueSize).size32 = f.valueSize := by
    refine UInt32.toNat_inj.mp ?_
    rw [ArenaEntry.size32_toNat]
    show (value.take f.valueSize.toNat).length = _
    rw [hvt, hvlen]
  refine ⟨?_, ?_, by omega⟩
  · rw [encode_eq, fixed]
    dsimp only
    rw [hk32, hv32]
    refine hfixed.append ?_
    rw [length_fixed]
    show At file.bytes (off + 25) (key.take f.keySize.toNat ++ value.take f.valueSize.toNat)
    rw [hkt, hvt]
    refine hkey.append ?_
    rw [hklen]
    exact hvalue
  · show off + 25 + f.keySize.toNat + f.valueSize.toNat =
      off + (25 + (key.take f.keySize.toNat).length + (value.take f.valueSize.toNat).length)
    rw [hkt, hvt, hklen, hvlen]
    omega

/-- The loop reads records that stand end to end up to the end of the payload. -/
theorem recordLoop_payloads (hf : file.Sound) (hblock : OneBlock lo payloadEnd) (hlo : lo ≤ off) (fuel : Nat)
    {ps : List Payload} (hat : At file.bytes off (ps.flatMap encode))
    (hend : off + (ps.flatMap encode).length = payloadEnd) (hfuel : ps.length ≤ fuel) :
    recordLoop payloadEnd fuel file off = .ok (ps, payloadEnd) := by
  induction ps generalizing fuel off with
  | nil =>
    have hoff : off = payloadEnd := hend
    cases fuel with
    | zero =>
      rw [hoff]
      rfl
    | succ fuel =>
      unfold recordLoop
      rw [if_neg (by omega), hoff]
  | cons p ps ih =>
    rw [List.flatMap_cons] at hat hend
    rw [List.length_append, length_encode] at hend
    have hsize : p.diskSize = 25 + p.key.bytes.length + p.value.bytes.length := rfl
    have hrest := hat.right
    rw [length_encode] at hrest
    cases fuel with
    | zero => exact absurd hfuel (by simp)
    | succ fuel =>
      unfold recordLoop
      rw [if_pos (by omega), Reader.bind_ok (readPayload_at hf hblock hlo hat.left (by omega)),
        Reader.bind_ok (ih (by omega) fuel hrest (by omega) (by rw [List.length_cons] at hfuel; omega))]
      rfl

theorem recordLoop_ok (hblock : OneBlock lo payloadEnd) (hlo : lo ≤ off) {fuel : Nat} {ps : List Payload}
    (h : recordLoop payloadEnd fuel file off = .ok (ps, payloadEnd)) :
    At file.bytes off (ps.flatMap encode) ∧ off + (ps.flatMap encode).length = payloadEnd := by
  induction fuel generalizing off ps with
  | zero =>
    cases h
    exact ⟨List.nil_prefix, rfl⟩
  | succ fuel ih =>
    unfold recordLoop at h
    by_cases hmore : off < payloadEnd
    · rw [if_pos hmore] at h
      obtain ⟨p, o1, h1, h⟩ := Reader.bind_eq_ok h
      obtain ⟨qs, o2, h2, h⟩ := Reader.bind_eq_ok h
      cases h
      obtain ⟨hp, rfl, -⟩ := readPayload_ok hblock hlo h1
      obtain ⟨hqs, hend⟩ := ih (by omega) h2
      rw [List.flatMap_cons, List.length_append, length_encode]
      refine ⟨hp.append ?_, by omega⟩
      rw [length_encode]
      exact hqs
    · rw [if_neg hmore] at h
      cases h
      exact ⟨List.nil_prefix, rfl⟩

end

/-- The block at the offset is a data block whose checksummed payload is these records. -/
def BlockRecords (file : ReadableFile) (off : Nat) (ps : List Payload) : Prop :=
  ∃ h, Discovered file off h ∧ Framed file h ps

section

variable {file : ReadableFile} {off : Nat} {h : DataSectionView.Header} {ps : List Payload}

theorem Framed.length_lt (hd : Discovered file off h) (hp : Framed file h ps) :
    (ps.flatMap encode).length < 2 ^ 32 - 1 := by
  have hcap : h.header.payloadDiskSize.toNat ≤ 4087 := hd.capacity
  rw [hp.length]
  omega

theorem readRecords_framed [LawfulZlib] (hf : file.Sound) (hd : Discovered file off h) (hp : Framed file h ps) :
    readRecords off h.header file (off + DataSection.Header.diskSize) =
      .ok (ps, off + DataSection.Header.diskSize + h.header.payloadDiskSize.toNat) := by
  have hb : BLOCK_SIZE = 4096 := rfl
  have hcap : h.header.payloadDiskSize.toNat ≤ 4087 := hd.capacity
  have hroom := hd.room.2
  rw [hd.payloadOffset] at hroom
  have hloop := recordLoop_payloads hf (oneBlock_of_fits hroom) (Nat.le_refl _) BLOCK_SIZE
    (by rw [← hd.payloadOffset]; exact hp.stands) (by rw [hp.length])
    (by have hle := length_le_flatMap ps; rw [hp.length] at hle; omega)
  have hcrc : (calculateCrc32 ps == h.header.crc32) = true := by
    rw [calculateCrc32_eq (Framed.length_lt hd hp), hp.crc]
    exact beq_self_eq_true _
  have hne : (!ps.isEmpty) = true := by
    cases ps with
    | nil => exact absurd rfl hp.ne
    | cons p ps => rfl
  unfold readRecords
  rw [Reader.ensure_bind (decide_eq_true hd.capacity), Reader.offset_bind,
    Reader.ensure_bind (decide_eq_true (by rw [hb, DataSection.Header.diskSize]; omega)), Reader.bind_ok hloop,
    Reader.offset_bind, Reader.ensure_bind (beq_self_eq_true _), Reader.ensure_bind hcrc, Reader.ensure_bind hne]
  rfl

theorem readBlock_framed [LawfulZlib] (hf : file.Sound) (hd : Discovered file off h) (hp : Framed file h ps) :
    ∃ off', readBlock file off = .ok (ps, off') := by
  have hb : BLOCK_SIZE = 4096 := rfl
  have halign := hd.aligned
  have hhead := hd.header
  unfold DataSection.Header.encode at hhead
  have htail := hhead.right
  rw [length_u8Bytes] at htail
  have hcrcAt := htail.right
  rw [length_u32Bytes] at hcrcAt
  have hpos : 1 ≤ BLOCK_SIZE := by decide
  have hwide : 4 ≤ BLOCK_SIZE := by decide
  rw [hb] at halign
  have h1 := decodes_u8 hpos h.header.type file off hf (.inr (by rw [length_u8Bytes, hb]; omega)) hhead.left
  have h2 := decodes_u32 hwide h.header.payloadDiskSize file (off + 1) hf
    (.inr (by rw [length_u32Bytes, hb]; omega)) htail.left
  have h3 := decodes_u32 hwide h.header.crc32 file (off + 1 + 4) hf
    (.inr (by rw [length_u32Bytes, hb]; omega)) hcrcAt
  refine ⟨off + DataSection.Header.diskSize + h.header.payloadDiskSize.toNat, ?_⟩
  unfold readBlock
  rw [Reader.offset_bind, Reader.ensure_bind (by rw [hd.aligned]; rfl), Reader.bind_ok h1,
    Reader.ensure_bind (by rw [hd.type]; rfl), length_u8Bytes, Reader.bind_ok h2, length_u32Bytes, Reader.bind_ok h3]
  exact readRecords_framed hf hd hp

theorem readRecords_ok [LawfulZlib] (hd : Discovered file off h) {off' : Nat}
    (hread : readRecords off h.header file (off + DataSection.Header.diskSize) = .ok (ps, off')) :
    Framed file h ps := by
  have hroom := hd.room.2
  rw [hd.payloadOffset] at hroom
  unfold readRecords at hread
  obtain ⟨hcap, hread⟩ := Reader.ensure_bind_eq_ok hread
  rw [Reader.offset_bind] at hread
  obtain ⟨-, hread⟩ := Reader.ensure_bind_eq_ok hread
  obtain ⟨qs, stop, hloop, hread⟩ := Reader.bind_eq_ok hread
  rw [Reader.offset_bind] at hread
  obtain ⟨hstop, hread⟩ := Reader.ensure_bind_eq_ok hread
  obtain ⟨hcrc, hread⟩ := Reader.ensure_bind_eq_ok hread
  obtain ⟨hne, hread⟩ := Reader.ensure_bind_eq_ok hread
  cases hread
  have hstop := eq_of_beq hstop
  subst hstop
  obtain ⟨hat, hlen⟩ := recordLoop_ok (oneBlock_of_fits hroom) (Nat.le_refl _) hloop
  have hlen : (ps.flatMap encode).length = h.header.payloadDiskSize.toNat := by omega
  have hshort : (ps.flatMap encode).length < 2 ^ 32 - 1 := by
    have hcap : h.header.payloadDiskSize.toNat ≤ 4087 := hd.capacity
    omega
  refine ⟨?_, ?_, hlen, ?_⟩
  · rintro rfl
    cases hne
  · rw [hd.payloadOffset]
    exact hat
  · rw [← calculateCrc32_eq hshort]
    exact eq_of_beq hcrc

theorem readBlock_ok [LawfulZlib] (hend : off + BLOCK_SIZE < 2 ^ 64) {off' : Nat}
    (hread : readBlock file off = .ok (ps, off')) : BlockRecords file off ps := by
  have hb : BLOCK_SIZE = 4096 := rfl
  unfold readBlock at hread
  rw [Reader.offset_bind] at hread
  obtain ⟨halign, hread⟩ := Reader.ensure_bind_eq_ok hread
  have halign : off % BLOCK_SIZE = 0 := eq_of_beq halign
  have hoff : off % 4096 = 0 := halign
  obtain ⟨type, o1, h1, hread⟩ := Reader.bind_eq_ok hread
  obtain ⟨rfl, a1⟩ := readU8_fits (by rw [hb]; omega) h1
  obtain ⟨htype, hread⟩ := Reader.ensure_bind_eq_ok hread
  obtain ⟨size, o2, h2, hread⟩ := Reader.bind_eq_ok hread
  obtain ⟨rfl, a2⟩ := readU32Le_fits (by rw [hb]; omega) h2
  obtain ⟨crc, o3, h3, hread⟩ := Reader.bind_eq_ok hread
  obtain ⟨rfl, a3⟩ := readU32Le_fits (by rw [hb]; omega) h3
  have hcap : size.toNat ≤ PAYLOAD_CAPACITY := by
    have hfirst := hread
    unfold readRecords at hfirst
    exact of_decide_eq_true (Reader.ensure_bind_eq_ok hfirst).1
  have hhead : At file.bytes off (DataSection.Header.mk type size crc).encode := by
    refine a1.append (a2.append ?_)
    rw [length_u32Bytes]
    exact a3
  have hd : Discovered file off (viewAt off ⟨type, size, crc⟩) :=
    ⟨halign, hhead, eq_of_beq htype, hcap, rfl, rfl, rfl, rfl, hend⟩
  exact ⟨viewAt off ⟨type, size, crc⟩, hd, readRecords_ok hd hread⟩

/-- **What the iterator accepts**: a data block that has the checksum of one or more records which
fill its payload. -/
theorem readBlock_ok_iff [LawfulZlib] (hf : file.Sound) (hend : off + BLOCK_SIZE < 2 ^ 64) :
    (∃ off', readBlock file off = .ok (ps, off')) ↔ BlockRecords file off ps := by
  constructor
  · rintro ⟨off', hread⟩
    exact readBlock_ok hend hread
  · rintro ⟨h, hd, hp⟩
    exact readBlock_framed hf hd hp

theorem BlockRecords.unique [LawfulZlib] (hf : file.Sound) {qs : List Payload} (hp : BlockRecords file off ps)
    (hq : BlockRecords file off qs) : ps = qs := by
  obtain ⟨h, hd, hp⟩ := hp
  obtain ⟨h', hd', hq⟩ := hq
  obtain ⟨o1, h1⟩ := readBlock_framed hf hd hp
  obtain ⟨o2, h2⟩ := readBlock_framed hf hd' hq
  rw [h1] at h2
  cases h2
  rfl

end

/-! ## Two decoders -/

section

variable {dataBlockCount sectionEnd : Nat} {file : ReadableFile} {it : SSTableIterator}

theorem loadNextBlock_ok_iff (hn : it.nextBlockIndex < dataBlockCount) {it' : SSTableIterator} :
    loadNextBlock dataBlockCount file it = (.ok (), it') ↔ ∃ ps off',
      readBlock file it.currentOffset = .ok (ps, off') ∧
      it' = ⟨it.currentOffset + BLOCK_SIZE, it.nextBlockIndex + 1, 0, ps.map record, true, it.status⟩ := by
  unfold loadNextBlock
  rw [if_neg (by omega)]
  cases hread : readBlock file it.currentOffset with
  | error e => simp
  | ok r =>
    obtain ⟨ps, off'⟩ := r
    constructor
    · intro h
      cases h
      exact ⟨ps, off', rfl, rfl⟩
    · rintro ⟨qs, off'', h, rfl⟩
      cases h
      rfl

/-- Both decoders accept the block at the iterator's offset or neither does, and then `read_record` gives
the records of the iterator. -/
def DecodersAgree (dataBlockCount sectionEnd : Nat) (file : ReadableFile) (it : SSTableIterator) : Prop :=
  ((∃ it', loadNextBlock dataBlockCount file it = (.ok (), it')) ↔
    ∃ b off' b', DataBlock.load sectionEnd file it.currentOffset = .ok (b, off') ∧
      DataBlock.validate file b = (.ok (), b')) ∧
  ∀ it' b off' b', loadNextBlock dataBlockCount file it = (.ok (), it') →
    DataBlock.load sectionEnd file it.currentOffset = .ok (b, off') → DataBlock.validate file b = (.ok (), b') →
      b'.recordCount = it'.currentBlockRecords.length ∧
        ∀ i r, it'.currentBlockRecords[i]? = some r → DataBlock.readRecord file i b' = (.ok r, b')

/-- What `load` and `validate` accept. -/
theorem validated_blockRecords {off off' : Nat} {b b' : DataBlock}
    (hload : DataBlock.load sectionEnd file off = .ok (b, off')) (hval : DataBlock.validate file b = (.ok (), b')) :
    ∃ h ps, Discovered file off h ∧ Framed file h ps ∧ (∀ p ∈ ps, Canonical p) ∧ ps.Pairwise Precedes ∧
      b' = validated h ps := by
  obtain ⟨hd, hfresh, -, -⟩ := load_discovered hload
  rw [hfresh] at hval
  obtain ⟨ps, hp, hcan, hpw, heq⟩ := validate_ok hd hval
  exact ⟨b.headerView, ps, hd, hp, hcan, hpw, heq⟩

/-- **The two decoders agree** on a block unless its checksummed records have an unknown type or flags or
stand out of order: the iterator does not look at these. -/
theorem decoders_agree_iff [LawfulZlib] (hf : file.Sound) (hn : it.nextBlockIndex < dataBlockCount)
    (hend : it.currentOffset + BLOCK_SIZE < 2 ^ 64) (hin : it.currentOffset + BLOCK_SIZE ≤ sectionEnd) :
    DecodersAgree dataBlockCount sectionEnd file it ↔
      ∀ ps, BlockRecords file it.currentOffset ps → (∀ p ∈ ps, Canonical p) ∧ ps.Pairwise Precedes := by
  constructor
  · rintro ⟨haccept, -⟩ ps hps
    obtain ⟨off', hread⟩ := (readBlock_ok_iff hf hend).mpr hps
    obtain ⟨b, off'', b', hload, hval⟩ :=
        haccept.mp ⟨_, (loadNextBlock_ok_iff hn).mpr ⟨ps, off', hread, rfl⟩⟩
    obtain ⟨h, qs, hd, hq, hcan, hpw, -⟩ := validated_blockRecords hload hval
    rw [hps.unique hf ⟨h, hd, hq⟩]
    exact ⟨hcan, hpw⟩
  · intro hcond
    refine ⟨⟨?_, ?_⟩, ?_⟩
    · rintro ⟨it', hload⟩
      obtain ⟨ps, off', hread, -⟩ := (loadNextBlock_ok_iff hn).mp hload
      have hps := (readBlock_ok_iff hf hend).mp ⟨off', hread⟩
      obtain ⟨hcan, hpw⟩ := hcond ps hps
      obtain ⟨h, hd, hp⟩ := hps
      exact ⟨_, _, _, load_of_discovered hf hd hin, validate_framed hf hd hp hcan hpw⟩
    · rintro ⟨b, off', b', hload, hval⟩
      obtain ⟨h, ps, hd, hp, -, -, -⟩ := validated_blockRecords hload hval
      obtain ⟨off'', hread⟩ := readBlock_framed hf hd hp
      exact ⟨_, (loadNextBlock_ok_iff hn).mpr ⟨ps, off'', hread, rfl⟩⟩
    · intro it' b off' b' hnext hload hval
      obtain ⟨ps, off'', hread, rfl⟩ := (loadNextBlock_ok_iff hn).mp hnext
      obtain ⟨h, qs, hd, hq, -, -, rfl⟩ := validated_blockRecords hload hval
      have hsame : ps = qs := ((readBlock_ok_iff hf hend).mp ⟨off'', hread⟩).unique hf ⟨h, hd, hq⟩
      subst hsame
      refine ⟨?_, fun i r hi => ?_⟩
      · show (metasFrom h.payloadOffset ps).length = (ps.map record).length
        rw [length_metasFrom, List.length_map]
      · have hi : (ps.map record)[i]? = some r := hi
        rw [List.getElem?_map, Option.map_eq_some_iff] at hi
        obtain ⟨p, hp, rfl⟩ := hi
        exact readRecord_eq hf hd hq hp

end

end SSTableIterator

namespace SSTableIterator

/-- An iterator in front of the first block. -/
def atStart : SSTableIterator := { currentOffset := 0 }

theorem decoders_agree_iff_twoVersions :
    @DecodersAgree documentedZlib 1 BLOCK_SIZE (@blockFile documentedZlib twoVersions) atStart := by
  let _ := documentedZlib
  have := documentedZlib_lawful
  have hf : (blockFile twoVersions).Sound := ReadableFile.ofBytes_sound _ _
  refine (decoders_agree_iff hf (by decide) (by decide) (Nat.le_refl _)).mpr fun ps hps => ?_
  rw [hps.unique hf ⟨_, blockFile_framed twoVersions (by simp [twoVersions]) (by decide)⟩]
  exact twoVersions_ordered

/-- One record with a flag. -/
def flagged : List Payload := [⟨.ofByte 1, .ofByte 7, RecType.put.toU8, 1, 0, 1⟩]

/-- A block with a flagged record and the right checksum is read by the iterator and not by lookups. -/
theorem decoders_disagree :
    ¬ @DecodersAgree documentedZlib 1 BLOCK_SIZE (@blockFile documentedZlib flagged) atStart := by
  let _ := documentedZlib
  have := documentedZlib_lawful
  have hf : (blockFile flagged).Sound := ReadableFile.ofBytes_sound _ _
  obtain ⟨hd, hp⟩ := blockFile_framed flagged (by simp [flagged]) (by decide)
  obtain ⟨off', hread⟩ := readBlock_framed hf hd hp
  rintro ⟨haccept, -⟩
  have hn : atStart.nextBlockIndex < 1 := by decide
  obtain ⟨b, off'', b', hload, hval⟩ := haccept.mp ⟨_, (loadNextBlock_ok_iff hn).mpr
      ⟨flagged, off', hread, rfl⟩⟩
  obtain ⟨h, qs, hd', hq, hcan, -, -⟩ := validated_blockRecords hload hval
  have hsame : flagged = qs := BlockRecords.unique hf ⟨_, hd, hp⟩ ⟨h, hd', hq⟩
  rw [← hsame] at hcan
  cases (hcan _ (List.mem_singleton.mpr rfl)).2.1

end SSTableIterator

end Kvdb
