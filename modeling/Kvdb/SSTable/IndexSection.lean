import Kvdb.SSTable.DataSectionView
import Kvdb.SSTable.Sections
import Mathlib.Data.List.Chain

/-!
# The index of a table

`core/sstable_entities/index_section`: for each data block its place in the file and
its first and last keys, all in one block.

    add_index … add_index  →  write

An index is well formed (`Sequence`) when its entries are valid, refer to
consecutive blocks, come in the order of their keys and fit into the block; that is
what `validate_payload_sequence` accepts (`validatePayloadSequence_ok_iff`).
-/

namespace Kvdb

open Faulty Bytes

namespace IndexSection

/-- `IndexSection::Header`, with the byte of its type. -/
structure Header where
  type : UInt8
  payloadSize : UInt32
  crc32 : UInt32
deriving DecidableEq

def Header.diskSize : Nat := 9

def kPayloadCapacity : Nat := BLOCK_SIZE - Header.diskSize

/-- `IndexSection::Payload`. -/
structure Payload where
  dataBlockOffset : UInt64
  firstKey : ArenaEntry
  lastKey : ArenaEntry
deriving DecidableEq

namespace Payload

def fixedDiskSize : Nat := 16

def diskSize (p : Payload) : Nat := fixedDiskSize + p.firstKey.size + p.lastKey.size

/-- `Payload::validate`. -/
def validate (p : Payload) : Except Status Unit :=
  if p.dataBlockOffset.toNat % BLOCK_SIZE ≠ 0 then
    .error ⟨.invalidSectionOffset, "index entry data-block offset is not block aligned"⟩
  else if p.diskSize > kPayloadCapacity then
    .error ⟨.invalidPayloadSize, "one index entry cannot fit beside the index header"⟩
  else if compareKeys p.firstKey.bytes p.lastKey.bytes = .gt then
    .error ⟨.invalidArgument, "index entry first key is greater than its last key"⟩
  else .ok ()

/-- The fields in file order. -/
def fields (p : Payload) : List (List UInt8) :=
  [u64Bytes p.dataBlockOffset, u32Bytes p.firstKey.size32, u32Bytes p.lastKey.size32, p.firstKey.bytes, p.lastKey.bytes]

def encode (p : Payload) : List UInt8 :=
  u64Bytes p.dataBlockOffset ++ (u32Bytes p.firstKey.size32 ++ (u32Bytes p.lastKey.size32 ++
    (p.firstKey.bytes ++ p.lastKey.bytes)))

@[simp] theorem length_encode (p : Payload) : p.encode.length = p.diskSize := by
  simp only [encode, List.length_append, length_u64Bytes, length_u32Bytes, diskSize, fixedDiskSize, ArenaEntry.size]
  omega

theorem flatten_fields (p : Payload) : p.fields.flatten = p.encode := by simp [fields, encode]

/-- `Payload::append_crc32`. -/
def appendCrc32 [Zlib] (crc : UInt32) (p : Payload) : UInt32 := p.fields.foldl computeCrc32 crc

/-- `Payload::write`. -/
def write (p : Payload) : WriterM Status Unit := do
  lift p.validate
  checkCursor "index payload tracked offset does not match file cursor"
  BloomSection.fitsHere p.diskSize
  writeU64Le p.dataBlockOffset BLOCK_SIZE
  writeU32Le p.firstKey.size32 BLOCK_SIZE
  writeU32Le p.lastKey.size32 BLOCK_SIZE
  writeBytes p.firstKey.bytes BLOCK_SIZE
  writeBytes p.lastKey.bytes BLOCK_SIZE

end Payload

namespace Header

def validate (h : Header) : Except Status Unit :=
  if h.type ≠ BlockType.index.toU8 then .error ⟨.invalidBlockType, "index header has a non-index block type"⟩
  else if h.payloadSize.toNat > kPayloadCapacity then
    .error ⟨.invalidPayloadSize, "version-1 index payload exceeds its single-block capacity"⟩
  else .ok ()

def encode (h : Header) : List UInt8 := u8Bytes h.type ++ (u32Bytes h.payloadSize ++ u32Bytes h.crc32)

@[simp] theorem length_encode (h : Header) : h.encode.length = diskSize := by simp [encode, diskSize]

def write (h : Header) : WriterM Status Unit := do
  lift h.validate
  checkCursor "index header tracked offset does not match file cursor"
  BloomSection.fitsHere diskSize
  writeU8 h.type BLOCK_SIZE
  writeU32Le h.payloadSize BLOCK_SIZE
  writeU32Le h.crc32 BLOCK_SIZE

end Header

/-! ## Sequences of entries -/

/-- The texts of the errors that the checks of neighbouring entries report. -/
structure NextMessages where
  overflow : String
  offset : String
  keys : String

/-- The checks of an entry against the one in front. -/
def validateNext (m : NextMessages) (previous payload : Payload) : Except Status Unit :=
  match checkedAdd previous.dataBlockOffset.toNat BLOCK_SIZE with
  | none => .error ⟨.dataTypeOverflow, m.overflow⟩
  | some expectedOffset =>
    if payload.dataBlockOffset.toNat ≠ expectedOffset then .error ⟨.invalidSectionOffset, m.offset⟩
    else if compareKeys previous.lastKey.bytes payload.firstKey.bytes = .gt then .error ⟨.overlappingKeys, m.keys⟩
    else .ok ()

/-- The check against the entry in front, if there is one. -/
def validateAfter (m : NextMessages) (previous : Option Payload) (payload : Payload) : Except Status Unit :=
  match previous with
  | none => .ok ()
  | some previous => validateNext m previous payload

def sequenceMessages : NextMessages where
  overflow := "index data-block offset progression overflows uint64_t"
  offset := "index entries must reference consecutive physical data blocks"
  keys := "adjacent index ranges overlap beyond one shared boundary key"

def newEntryMessages : NextMessages where
  overflow := "new index data-block offset progression overflows uint64_t"
  offset := "new index entry must reference the next physical data block"
  keys := "new index key range is out of global key order"

/-- The loop of `validate_payload_sequence`. -/
def validateFrom : Option Payload → Nat → List Payload → Except Status Nat
  | _, payloadBytes, [] => .ok payloadBytes
  | previous, payloadBytes, p :: ps => do
    p.validate
    validateAfter sequenceMessages previous p
    match checkedAdd payloadBytes p.diskSize with
    | none => .error ⟨.dataTypeOverflow, "index payload byte count overflows uint64_t"⟩
    | some total =>
      if total > kPayloadCapacity then
        .error ⟨.invalidSectionSize, "version-1 index does not fit in its single physical block"⟩
      else validateFrom (some p) total ps

/-- `validate_payload_sequence`: the bytes of the entries. -/
def validatePayloadSequence (ps : List Payload) : Except Status Nat := validateFrom none 0 ps

end IndexSection

structure IndexSection where
  header : IndexSection.Header
  payloads : List IndexSection.Payload
deriving DecidableEq

namespace IndexSection

def empty : IndexSection := ⟨⟨BlockType.index.toU8, 0, crc32Init⟩, []⟩

/-- `IndexSection::disk_size`. -/
def diskSize (s : IndexSection) : Nat := Header.diskSize + (s.payloads.map Payload.diskSize).sum

section

variable [Zlib]

/-- The header of these entries. -/
def derivedHeader (ps : List Payload) : Header :=
  ⟨BlockType.index.toU8, UInt32.ofNat (ps.map Payload.diskSize).sum, ps.foldl Payload.appendCrc32 crc32Init⟩

/-- The section of these entries. -/
def ofPayloads (ps : List Payload) : IndexSection := ⟨derivedHeader ps, ps⟩

/-- `build_header`. -/
def buildHeader (ps : List Payload) : Except Status Header := do
  let payloadBytes ← validatePayloadSequence ps
  if payloadBytes > 2 ^ 32 - 1 then
    .error ⟨.dataTypeOverflow, "index payload size cannot be represented by uint32_t"⟩
  else do
    let result : Header := ⟨BlockType.index.toU8, UInt32.ofNat payloadBytes, ps.foldl Payload.appendCrc32 crc32Init⟩
    result.validate
    pure result

/-- `IndexSection::add_index`. -/
def addIndex (s : IndexSection) (dataBlockOffset : UInt64) (firstKey lastKey : ArenaEntry) :
    Except Status IndexSection := do
  let existingPayloadBytes ← validatePayloadSequence s.payloads
  let payload : Payload := ⟨dataBlockOffset, firstKey, lastKey⟩
  payload.validate
  validateAfter newEntryMessages s.payloads.getLast? payload
  match checkedAdd existingPayloadBytes payload.diskSize with
  | none => .error ⟨.invalidSectionSize, "new index entry would exceed the version-1 single-block limit"⟩
  | some newPayloadBytes =>
    if newPayloadBytes > kPayloadCapacity then
      .error ⟨.invalidSectionSize, "new index entry would exceed the version-1 single-block limit"⟩
    else do
      let header ← buildHeader (s.payloads ++ [payload])
      pure ⟨header, s.payloads ++ [payload]⟩

/-- The entries one after the other. -/
def writePayloads : List Payload → WriterM Status Unit
  | [] => pure ()
  | p :: ps => do
    p.write
    writePayloads ps

/-- `IndexSection::write`: the section with its header, and its offset. -/
def write (s : IndexSection) : WriterM Status (IndexSection × Nat) := do
  let stagedHeader ← lift (buildHeader s.payloads)
  checkCursor "index section tracked offset does not match file cursor"
  alignToBlockBoundary BLOCK_SIZE
  let w ← Faulty.get
  BloomSection.fitsHere (Header.diskSize + stagedHeader.payloadSize.toNat)
  stagedHeader.write
  writePayloads s.payloads
  pure (⟨stagedHeader, s.payloads⟩, w.offset)

end

/-! ## Well-formed sequences -/

/-- One entry follows another: its block is the next one, and its keys are not smaller. -/
structure Next (p q : Payload) : Prop where
  offset : q.dataBlockOffset.toNat = p.dataBlockOffset.toNat + BLOCK_SIZE
  keys : p.lastKey ≤ q.firstKey

/-- A valid entry. -/
structure Entry (p : Payload) : Prop where
  aligned : p.dataBlockOffset.toNat % BLOCK_SIZE = 0
  fits : p.diskSize ≤ kPayloadCapacity
  keys : p.firstKey ≤ p.lastKey

structure Sequence (ps : List Payload) : Prop where
  entries : ∀ p ∈ ps, Entry p
  chain : ps.IsChain Next
  fits : (ps.map Payload.diskSize).sum ≤ kPayloadCapacity

theorem compareKeys_gt_iff' {a b : ArenaEntry} : compareKeys a.bytes b.bytes ≠ .gt ↔ a ≤ b := by
  rw [Ne, compareKeys_gt_iff, not_lt]

theorem validate_ok_iff (p : Payload) : p.validate = .ok () ↔ Entry p := by
  unfold Payload.validate
  constructor
  · intro h
    split at h
    · cases h
    next h1 =>
    split at h
    · cases h
    next h2 =>
    split at h
    · cases h
    next h3 => exact ⟨not_not.mp h1, by omega, compareKeys_gt_iff'.mp h3⟩
  · rintro ⟨h1, h2, h3⟩
    rw [if_neg (not_not.mpr h1), if_neg (by omega), if_neg (compareKeys_gt_iff'.mpr h3)]

theorem validateNext_ok_iff (m : NextMessages) (p q : Payload) : validateNext m p q = .ok () ↔ Next p q := by
  unfold validateNext checkedAdd
  have hlt := q.dataBlockOffset.toNat_lt
  by_cases hover : p.dataBlockOffset.toNat > 2 ^ 64 - 1 - BLOCK_SIZE
  · rw [if_pos hover]
    constructor
    · intro h
      cases h
    · rintro ⟨h, -⟩
      have hblock : BLOCK_SIZE = 4096 := rfl
      omega
  · rw [if_neg hover]
    dsimp only
    constructor
    · intro h
      split at h
      · cases h
      next hoff =>
      split at h
      · cases h
      next hkeys => exact ⟨not_not.mp hoff, compareKeys_gt_iff'.mp hkeys⟩
    · rintro ⟨hoff, hkeys⟩
      rw [if_neg (not_not.mpr hoff), if_neg (compareKeys_gt_iff'.mpr hkeys)]

theorem validateAfter_ok_iff (m : NextMessages) (previous : Option Payload) (q : Payload) :
    validateAfter m previous q = .ok () ↔ ∀ p ∈ previous, Next p q := by
  cases previous with
  | none => simp [validateAfter]
  | some p => simpa [validateAfter] using validateNext_ok_iff m p q

theorem isChain_after (previous : Option Payload) (p : Payload) (ps : List Payload) :
    (previous.toList ++ p :: ps).IsChain Next ↔ (∀ q ∈ previous, Next q p) ∧ (p :: ps).IsChain Next := by
  cases previous with
  | none => simp
  | some q => simp [List.isChain_cons_cons]

theorem checkedAdd_of_lt {a b : Nat} (h : a + b < 2 ^ 64) : checkedAdd a b = some (a + b) := by
  unfold checkedAdd
  rw [if_neg (by omega)]

theorem checkedAdd_eq_some {a b c : Nat} (h : checkedAdd a b = some c) : c = a + b := by
  unfold checkedAdd at h
  split at h
  · cases h
  · cases h
    rfl

/-- What the loop of `validate_payload_sequence` accepts behind an entry. -/
theorem validateFrom_ok_iff (previous : Option Payload) (payloadBytes : Nat) (ps : List Payload) (total : Nat)
    (hbytes : payloadBytes ≤ kPayloadCapacity) :
    validateFrom previous payloadBytes ps = .ok total ↔
      ((∀ p ∈ ps, Entry p) ∧ (previous.toList ++ ps).IsChain Next) ∧
        total = payloadBytes + (ps.map Payload.diskSize).sum ∧ total ≤ kPayloadCapacity := by
  have hcap : kPayloadCapacity = 4087 := rfl
  induction ps generalizing previous payloadBytes with
  | nil =>
    constructor
    · intro h
      cases h
      refine ⟨⟨by simp, ?_⟩, by simp, hbytes⟩
      cases previous with
      | none => exact .nil
      | some p => exact .singleton p
    · rintro ⟨-, rfl, -⟩
      rfl
  | cons p ps ih =>
    rw [isChain_after, List.map_cons, List.sum_cons, ← Nat.add_assoc, List.forall_mem_cons]
    constructor
    · intro h
      obtain ⟨_, hp, h⟩ := except_bind_ok h
      obtain ⟨_, hafter, h⟩ := except_bind_ok h
      cases hadd : checkedAdd payloadBytes p.diskSize with
      | none =>
        rw [hadd] at h
        cases h
      | some next =>
        rw [hadd] at h
        dsimp only at h
        split at h
        · cases h
        next hle =>
        have hnext := checkedAdd_eq_some hadd
        subst hnext
        obtain ⟨⟨hall, hchain⟩, htotal, hfits⟩ := (ih (some p) _ (by omega)).mp h
        exact ⟨⟨⟨(validate_ok_iff p).mp hp, hall⟩, (validateAfter_ok_iff _ _ _).mp hafter, hchain⟩,
          htotal, hfits⟩
    · rintro ⟨⟨⟨hp, hall⟩, hafter, hchain⟩, htotal, hfits⟩
      have hle : payloadBytes + p.diskSize ≤ kPayloadCapacity := by omega
      have hrest := (ih (some p) (payloadBytes + p.diskSize) hle).mpr ⟨⟨hall, hchain⟩, htotal, hfits⟩
      rw [validateFrom, (validate_ok_iff p).mpr hp, ok_bind, (validateAfter_ok_iff _ _ _).mpr hafter, ok_bind,
        checkedAdd_of_lt (by omega)]
      dsimp only
      rw [if_neg (by omega), hrest]

/-- `validate_payload_sequence` accepts the well-formed sequences. -/
theorem validatePayloadSequence_ok_iff (ps : List Payload) (total : Nat) :
    validatePayloadSequence ps = .ok total ↔ Sequence ps ∧ total = (ps.map Payload.diskSize).sum := by
  rw [validatePayloadSequence, validateFrom_ok_iff none 0 ps total (Nat.zero_le _), Nat.zero_add]
  constructor
  · rintro ⟨⟨hall, hchain⟩, rfl, hfits⟩
    exact ⟨⟨hall, hchain, hfits⟩, rfl⟩
  · rintro ⟨⟨hall, hchain, hfits⟩, rfl⟩
    exact ⟨⟨hall, hchain⟩, rfl, hfits⟩

theorem Sequence.left {ps qs : List Payload} (h : Sequence (ps ++ qs)) : Sequence ps := by
  have hfits := h.fits
  rw [List.map_append, List.sum_append] at hfits
  exact ⟨fun p hp => h.entries p (List.mem_append_left _ hp), h.chain.left_of_append, by omega⟩

theorem Sequence.nil : Sequence [] := ⟨by simp, .nil, Nat.zero_le _⟩

/-! ## Writing -/

section

variable [Zlib]

theorem derivedHeader_valid {ps : List Payload} (h : (ps.map Payload.diskSize).sum ≤ kPayloadCapacity) :
    (derivedHeader ps).validate = .ok () := by
  have hcap : kPayloadCapacity = 4087 := rfl
  have hsize : (derivedHeader ps).payloadSize.toNat = (ps.map Payload.diskSize).sum := by
    show (UInt32.ofNat _).toNat = _
    rw [UInt32.toNat_ofNat', Nat.mod_eq_of_lt (by omega)]
  unfold Header.validate
  have htype : (derivedHeader ps).type = BlockType.index.toU8 := rfl
  rw [if_neg (not_not.mpr htype), hsize, if_neg (by omega)]

/-- A header is built for the well-formed sequences. -/
theorem buildHeader_ok_iff (ps : List Payload) (h : Header) :
    buildHeader ps = .ok h ↔ Sequence ps ∧ h = derivedHeader ps := by
  have hcap : kPayloadCapacity = 4087 := rfl
  constructor
  · intro hb
    obtain ⟨total, htotal, hb⟩ := except_bind_ok hb
    obtain ⟨hseq, rfl⟩ := (validatePayloadSequence_ok_iff ps total).mp htotal
    split at hb
    · cases hb
    obtain ⟨_, -, hb⟩ := except_bind_ok hb
    cases hb
    exact ⟨hseq, rfl⟩
  · rintro ⟨hseq, rfl⟩
    have hvalid := derivedHeader_valid hseq.fits
    have hfits := hseq.fits
    rw [buildHeader, (validatePayloadSequence_ok_iff ps _).mpr ⟨hseq, rfl⟩, ok_bind, if_neg (by omega)]
    show (derivedHeader ps).validate.bind _ = _
    rw [hvalid]
    rfl

/-- `add_index` puts its entry behind the others, when the sequence stays well formed. -/
theorem addIndex_ok_iff (s : IndexSection) (off : UInt64) (first last : ArenaEntry) (t : IndexSection) :
    s.addIndex off first last = .ok t ↔
      Sequence (s.payloads ++ [⟨off, first, last⟩]) ∧ t = ofPayloads
        (s.payloads ++ [⟨off, first, last⟩]) := by
  have hcap : kPayloadCapacity = 4087 := rfl
  constructor
  · intro h
    obtain ⟨existing, -, h⟩ := except_bind_ok h
    obtain ⟨_, -, h⟩ := except_bind_ok h
    obtain ⟨_, -, h⟩ := except_bind_ok h
    split at h
    · cases h
    split at h
    · cases h
    obtain ⟨header, hb, h⟩ := except_bind_ok h
    cases h
    obtain ⟨hseq, rfl⟩ := (buildHeader_ok_iff _ _).mp hb
    exact ⟨hseq, rfl⟩
  · rintro ⟨hseq, rfl⟩
    have hbuild := (buildHeader_ok_iff _ _).mpr ⟨hseq, rfl⟩
    have hfits := hseq.fits
    rw [List.map_append, List.sum_append, List.map_singleton, List.sum_singleton] at hfits
    have hold := hseq.left
    have hentry := (validate_ok_iff _).mpr (hseq.entries ⟨off, first, last⟩ (by simp))
    have hafter : validateAfter newEntryMessages s.payloads.getLast? ⟨off, first, last⟩ = .ok () := by
      refine (validateAfter_ok_iff _ _ _).mpr fun p hp => ?_
      exact (List.isChain_append.mp hseq.chain).2.2 p hp _ (by simp)
    rw [addIndex, (validatePayloadSequence_ok_iff _ _).mpr ⟨hold, rfl⟩, ok_bind]
    dsimp only
    rw [hentry, ok_bind, hafter, ok_bind, checkedAdd_of_lt (by omega)]
    dsimp only
    rw [if_neg (by omega), hbuild]
    rfl

/-- The section with the header of its entries, as it stands in the file. -/
def encode (ps : List Payload) : List UInt8 := (derivedHeader ps).encode ++ ps.flatMap Payload.encode

theorem length_encode (ps : List Payload) : (encode ps).length = Header.diskSize + (ps.map Payload.diskSize).sum := by
  rw [encode, List.length_append, Header.length_encode, List.length_flatMap]
  congr 2
  exact List.map_congr_left fun p _ => p.length_encode

omit [Zlib] in
theorem Payload.write_fitting {p : Payload} (h : Entry p) : AppendsFitting BLOCK_SIZE p.write p.encode :=
  lift_fitting ((validate_ok_iff p).mpr h) ((checkCursor_fitting _).then
    (BloomSection.fitsHere_fitting p.length_encode.ge
    ((writeU64_fitting _).bind ((writeU32_fitting _).bind ((writeU32_fitting _).bind
      ((writeBytes_fitting _).bind (writeBytes_fitting _)))))))

omit [Zlib] in
theorem Header.write_fitting {h : Header} (hv : h.validate = .ok ()) : AppendsFitting BLOCK_SIZE h.write h.encode :=
  lift_fitting hv ((checkCursor_fitting _).then (BloomSection.fitsHere_fitting h.length_encode.ge
    ((writeU8_fitting _).bind ((writeU32_fitting _).bind (writeU32_fitting _)))))

omit [Zlib] in
theorem writePayloads_fitting {ps : List Payload} (h : ∀ p ∈ ps, Entry p) :
    AppendsFitting BLOCK_SIZE (writePayloads ps) (ps.flatMap Payload.encode) := by
  induction ps with
  | nil => exact fun _ _ _ => rfl
  | cons p ps ih =>
    rw [List.flatMap_cons]
    exact (Payload.write_fitting (h p (by simp))).bind (ih fun q hq => h q (by simp [hq]))

/-- A well-formed index is written into one block, behind the alignment. -/
theorem emits_write {s : IndexSection} (h : Sequence s.payloads) (off : Nat) :
    Emits s.write off (alignment off ++ encode s.payloads)
      (ofPayloads s.payloads, aligned off) := by
  have hcap : kPayloadCapacity + Header.diskSize = BLOCK_SIZE := rfl
  have hfits := h.fits
  have hbuild := (buildHeader_ok_iff _ _).mpr ⟨h, rfl⟩
  have hsize : (derivedHeader s.payloads).payloadSize.toNat = (s.payloads.map Payload.diskSize).sum := by
    show (UInt32.ofNat _).toNat = _
    have hblock : BLOCK_SIZE = 4096 := rfl
    rw [UInt32.toNat_ofNat', Nat.mod_eq_of_lt (by omega)]
  have hbody : Emits (do
      (derivedHeader s.payloads).write
      writePayloads s.payloads) (aligned off) (encode s.payloads) () :=
    ((Header.write_fitting (derivedHeader_valid hfits)).bind (writePayloads_fitting h.entries)).emits_edge
      (aligned_mod off) (by have hlen := length_encode s.payloads; rw [encode] at hlen; omega)
  refine Emits.lift hbuild ((emits_checkCursor _ off).then ((emits_align off).bind (.get fun w hw ho => ?_)))
  have ho' : w.offset = aligned off := ho
  refine (emits_fitsHere ?_).then ?_
  · show _ ≤ BLOCK_SIZE - aligned off % BLOCK_SIZE
    rw [aligned_mod, hsize]
    omega
  · rw [ho']
    exact (hbody.seq (emits_pure _ _)).of_eq (List.append_nil _)

/-- Only a well-formed index is written. -/
theorem write_ok {s : IndexSection} {w w' : Writer Status} {r : IndexSection × Nat} (h : s.write w = (.ok r, w')) :
    Sequence s.payloads := by
  obtain ⟨_, hbuild, -⟩ := lift_bind_eq_ok h
  exact ((buildHeader_ok_iff _ _).mp hbuild).1

end

end IndexSection

end Kvdb
