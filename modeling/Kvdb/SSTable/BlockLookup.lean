import Kvdb.Lib.LowerBound
import Kvdb.Lib.Pointwise
import Kvdb.SSTable.BlockParsing

/-!
# Lookups in a validated block

After `validate` has accepted a block, its entries lie end to end over the payload
and describe the records there (`validate_ok`), so the lookups that trust them are
total: `findFirstRecord` gives the first record with the key and `readRecord` the
record of an index (`validate_makes_total`).
-/

namespace Kvdb

open Faulty Bytes DataSection DataSection.Payload LowerBound

namespace DataSectionView

/-- Strict internal order of decoded records. -/
def recordPrecedes (r s : StoredRecord) : Prop := r.key < s.key ∨ (r.key = s.key ∧ s.seqNum.toNat < r.seqNum.toNat)

/-- The entries cover the range from `start` to `stop`: each record begins where the one in front
ends, and its key and value fill it. -/
def Tiles : Nat → List RecordMeta → Nat → Prop
  | start, [], stop => start = stop
  | start, m :: ms, stop =>
    m.recordOffset = start ∧ m.keyOffset = start + fixedPartDiskSize ∧
      m.valueOffset = m.keyOffset + m.keySize.toNat ∧
      Tiles (start + m.diskSize) ms stop

/-- The record in the ranges of an entry. -/
def recordAt (file : ReadableFile) (m : RecordMeta) : StoredRecord :=
  ⟨.ofTake (file.bytes.drop m.keyOffset) m.keySize, .ofTake (file.bytes.drop m.valueOffset) m.valueSize, m.type,
    m.seqNum⟩

/-! ## Loading and validating -/

theorem checkedAdd_eq {a b c : Nat} (hb : b < 2 ^ 64) (h : checkedAdd a b = some c) : c = a + b ∧ c < 2 ^ 64 := by
  unfold checkedAdd at h
  split at h
  · cases h
  · cases h
    omega

theorem checkedMul_eq {a b c : Nat} (h : checkedMul a b = some c) : c = a * b ∧ c < 2 ^ 64 := by
  unfold checkedMul at h
  split at h
  · cases h
  next hguard =>
  cases h
  refine ⟨rfl, ?_⟩
  by_cases hzero : a = 0
  · rw [hzero, Nat.zero_mul]
    decide
  · have hle : b ≤ (2 ^ 64 - 1) / a := by
      by_contra hgt
      exact hguard ⟨hzero, by omega⟩
    have hprod := Nat.mul_le_of_le_div a _ _ hle
    rw [Nat.mul_comm] at hprod
    omega

theorem checkedAdd_of_lt {a b : Nat} (h : a + b < 2 ^ 64) : checkedAdd a b = some (a + b) := by
  unfold checkedAdd
  rw [if_neg (by omega)]

theorem readFields_decodes (h : DataSection.Header) : Decodes BLOCK_SIZE DataSection.Header.readFields h.encode h := by
  have h1 : 1 ≤ BLOCK_SIZE := by decide
  have h4 : 4 ≤ BLOCK_SIZE := by decide
  unfold DataSection.Header.readFields DataSection.Header.encode
  exact (decodes_u8 h1 _).bind ((decodes_u32 h4 _).bind ((decodes_u32 h4 _).last (decodes_pure _)))

/-- A header that was read at a block boundary. -/
theorem readFields_ok {file : ReadableFile} {off off' : Nat} {h : DataSection.Header} (halign : off % BLOCK_SIZE = 0)
    (hread : DataSection.Header.readFields file off = .ok (h, off')) :
    off' = off + DataSection.Header.diskSize ∧ At file.bytes off h.encode := by
  have hb : BLOCK_SIZE = 4096 := rfl
  rw [hb] at halign
  unfold DataSection.Header.readFields at hread
  obtain ⟨type, off1, h1, hread⟩ := Reader.bind_eq_ok hread
  obtain ⟨size, off2, h2, hread⟩ := Reader.bind_eq_ok hread
  obtain ⟨crc, off3, h3, hread⟩ := Reader.bind_eq_ok hread
  cases hread
  obtain ⟨rfl, a1⟩ := readU8_fits (by rw [hb]; omega) h1
  obtain ⟨rfl, a2⟩ := readU32Le_fits (by rw [hb]; omega) h2
  obtain ⟨rfl, a3⟩ := readU32Le_fits (by rw [hb]; omega) h3
  refine ⟨rfl, a1.append (a2.append ?_)⟩
  rw [length_u32Bytes]
  exact a3

/-- A block that was discovered: its extents. -/
structure Discovered (file : ReadableFile) (off : Nat) (h : Header) : Prop where
  aligned : off % BLOCK_SIZE = 0
  header : At file.bytes off h.header.encode
  type : h.header.type = BlockType.data.toU8
  capacity : h.header.payloadDiskSize.toNat ≤ PAYLOAD_CAPACITY
  headerOffset : h.headerOffset = off
  payloadOffset : h.payloadOffset = off + DataSection.Header.diskSize
  payloadEnd : h.payloadEndOffset = h.payloadOffset + h.header.payloadDiskSize.toNat
  next : h.nextBlockOffset = off + BLOCK_SIZE
  next_lt : h.nextBlockOffset < 2 ^ 64

theorem load_discovered {file : ReadableFile} {sectionEnd off off' : Nat} {b : DataBlock}
    (h : DataBlock.load sectionEnd file off = .ok (b, off')) :
    Discovered file off b.headerView ∧ b = { headerView := b.headerView } ∧ off' = off + BLOCK_SIZE ∧
      off' ≤ sectionEnd := by
  unfold DataBlock.load at h
  split at h
  · cases h
  · next hv o hload =>
    cases h
    unfold Header.load at hload
    rw [Reader.offset_bind] at hload
    obtain ⟨halign, hload⟩ := Reader.ensure_bind_eq_ok hload
    have halign : off % BLOCK_SIZE = 0 := by simpa using halign
    obtain ⟨-, hload⟩ := Reader.ensure_bind_eq_ok hload
    obtain ⟨header, off1, hread, hload⟩ := Reader.bind_eq_ok hload
    obtain ⟨rfl, hat⟩ := readFields_ok halign hread
    obtain ⟨htype, hload⟩ := Reader.ensure_bind_eq_ok hload
    obtain ⟨hcap, hload⟩ := Reader.ensure_bind_eq_ok hload
    rw [Reader.offset_bind] at hload
    have hsize := header.payloadDiskSize.toNat_lt
    unfold Header.bounded at hload
    split at hload
    · cases hload
    next payloadEnd hpe =>
    split at hload
    · cases hload
    next nextBlock hnb =>
    split at hload
    · cases hload
    next hin =>
    cases hload
    obtain ⟨rfl, -⟩ := checkedAdd_eq (by omega) hpe
    obtain ⟨rfl, hlt⟩ := checkedAdd_eq (by decide) hnb
    refine ⟨⟨halign, hat, by simpa using htype, by simpa using hcap, rfl, rfl, rfl, rfl, hlt⟩, rfl, rfl, ?_⟩
    show off + BLOCK_SIZE ≤ sectionEnd
    omega

/-- The extents behind a block header at the offset. -/
def viewAt (off : Nat) (h : DataSection.Header) : Header :=
  ⟨h, off, off + DataSection.Header.diskSize, off + DataSection.Header.diskSize + h.payloadDiskSize.toNat,
    off + BLOCK_SIZE⟩

theorem Discovered.eq_viewAt {file : ReadableFile} {off : Nat} {h : Header} (hd : Discovered file off h) :
    h = viewAt off h.header := by
  obtain ⟨-, -, -, -, h1, h2, h3, h4, -⟩ := hd
  cases h
  simp only at h1 h2 h3 h4
  subst h1 h2 h3 h4
  rfl

/-- A block inside the section is loaded. -/
theorem load_of_discovered {file : ReadableFile} (hf : file.Sound) {sectionEnd off : Nat} {h : Header}
    (hd : Discovered file off h) (hin : off + BLOCK_SIZE ≤ sectionEnd) :
    DataBlock.load sectionEnd file off = .ok ({ headerView := h }, off + BLOCK_SIZE) := by
  have hb : BLOCK_SIZE = 4096 := rfl
  have hsize : DataSection.Header.diskSize = 9 := rfl
  have hcap : h.header.payloadDiskSize.toNat ≤ 4087 := hd.capacity
  have hlt := hd.next_lt
  rw [hd.next] at hlt
  have hfields := readFields_decodes h.header file off hf
    (.inr (by rw [DataSection.Header.length_encode, hd.aligned]; decide)) hd.header
  rw [DataSection.Header.length_encode] at hfields
  have hsection : headerInSection off sectionEnd = true := by
    unfold headerInSection
    rw [checkedAdd_of_lt (by omega)]
    exact decide_eq_true (by omega)
  have hbounded : Header.bounded h.header off (off + DataSection.Header.diskSize) sectionEnd = .ok h := by
    unfold Header.bounded
    rw [checkedAdd_of_lt (by omega)]
    dsimp only
    rw [checkedAdd_of_lt (by omega)]
    dsimp only
    rw [if_neg (by omega)]
    exact congrArg Except.ok hd.eq_viewAt.symm
  have hload : Header.load sectionEnd file off = .ok (h, off + DataSection.Header.diskSize) := by
    unfold Header.load
    rw [Reader.offset_bind, Reader.ensure_bind (by rw [hd.aligned]; rfl), Reader.ensure_bind hsection,
      Reader.bind_ok hfields, Reader.ensure_bind (by rw [hd.type]; rfl),
      Reader.ensure_bind (decide_eq_true hd.capacity), Reader.offset_bind, hbounded]
    rfl
  unfold DataBlock.load
  rw [hload]
  dsimp only
  rw [hd.next]

section

variable [Zlib] {file : ReadableFile} {off : Nat} {h : Header} {ps : List Payload}

/-- The payload of a block is these records, and the header has its checksum. -/
structure Framed (file : ReadableFile) (h : Header) (ps : List Payload) : Prop where
  ne : ps ≠ []
  stands : At file.bytes h.payloadOffset (ps.flatMap encode)
  length : (ps.flatMap encode).length = h.header.payloadDiskSize.toNat
  crc : computeCrc32 crc32Init (ps.flatMap encode) = h.header.crc32

/-- The block after `validate` accepted these records. -/
def validated (h : Header) (ps : List Payload) : DataBlock := ⟨h, .valid, none, metasFrom h.payloadOffset ps⟩

omit [Zlib] in
theorem Discovered.room (hd : Discovered file off h) :
    h.payloadOffset % BLOCK_SIZE = DataSection.Header.diskSize ∧
      h.header.payloadDiskSize.toNat ≤ BLOCK_SIZE - h.payloadOffset % BLOCK_SIZE := by
  have hb : BLOCK_SIZE = 4096 := rfl
  have hcap := hd.capacity
  have halign := hd.aligned
  rw [hd.payloadOffset]
  rw [hb] at halign ⊢
  unfold PAYLOAD_CAPACITY at hcap
  rw [DataSection.Header.diskSize] at hcap ⊢
  omega

/-- A block that was accepted has records, in order. -/
theorem validate_ok (hd : Discovered file off h) {b' : DataBlock}
    (hval : DataBlock.validate file { headerView := h } = (.ok (), b')) :
    ∃ ps, Framed file h ps ∧ (∀ p ∈ ps, Canonical p) ∧ ps.Pairwise Precedes ∧ b' = validated h ps := by
  have hpay : DataBlock.validatePayload file { headerView := h } = (.ok (), b') := hval
  unfold DataBlock.validatePayload at hpay
  rw [if_neg (by have := hd.capacity; dsimp only; omega)] at hpay
  split at hpay
  · cases hpay
  · next bytes readOffset hread =>
    obtain ⟨-, hat, hlen⟩ := readBytes_fits (by decide) hd.room.2 hread
    split at hpay
    · cases hpay
    · split at hpay
      · cases hpay
      · next records hcheck =>
        cases hpay
        obtain ⟨hcrc, ps, hne, rfl, hcan, hpw, rfl⟩ := checkPayload_ok_iff.mp hcheck
        exact ⟨ps, ⟨hne, hat, hlen, hcrc⟩, hcan, hpw, rfl⟩

theorem Framed.readBytes (hf : file.Sound) (hd : Discovered file off h) (hp : Framed file h ps) :
    readBytes h.header.payloadDiskSize.toNat BLOCK_SIZE file h.payloadOffset =
      .ok (ps.flatMap encode, h.payloadOffset + h.header.payloadDiskSize.toNat) := by
  rw [← hp.length]
  refine decodes_bytes (by decide) (ps.flatMap encode) file h.payloadOffset hf (.inr ?_) hp.stands
  rw [hp.length]
  exact hd.room.2

theorem validate_framed (hf : file.Sound) (hd : Discovered file off h) (hp : Framed file h ps)
    (hcan : ∀ p ∈ ps, Canonical p) (hpw : ps.Pairwise Precedes) :
    DataBlock.validate file { headerView := h } = (.ok (), validated h ps) := by
  show DataBlock.validatePayload file { headerView := h } = _
  unfold DataBlock.validatePayload
  rw [if_neg (by have := hd.capacity; dsimp only; omega)]
  have hread := hp.readBytes hf hd
  dsimp only
  rw [hread]
  dsimp only
  rw [if_neg (by rw [hd.payloadEnd, not_not]), checkPayload_ok_iff.mpr ⟨hp.crc, ps, hp.ne, rfl, hcan, hpw, rfl⟩]
  rfl

/-- The header and the records of a block, wherever they stand at a block edge. -/
theorem blockRecords_at [LawfulZlib] (halign : off % BLOCK_SIZE = 0) (hend : off + BLOCK_SIZE < 2 ^ 64)
    (hne : ps ≠ []) (hroom : (ps.map diskSize).sum ≤ PAYLOAD_CAPACITY)
    (hat : At file.bytes off ((derivedHeader ps).encode ++ ps.flatMap encode)) :
    Discovered file off (viewAt off (derivedHeader ps)) ∧ Framed file (viewAt off (derivedHeader ps)) ps := by
  have hcap : (ps.map diskSize).sum ≤ 4087 := hroom
  have hsize : (derivedHeader ps).payloadDiskSize.toNat = (ps.map diskSize).sum := by
    show (UInt32.ofNat _).toNat = _
    rw [UInt32.toNat_ofNat', Nat.mod_eq_of_lt (by omega)]
  have hrecords := hat.right
  rw [DataSection.Header.length_encode] at hrecords
  constructor
  · exact ⟨halign, hat.left, rfl, hsize ▸ hroom, rfl, rfl, rfl, rfl, hend⟩
  · refine ⟨hne, hrecords, ?_, ?_⟩
    · rw [length_flatMap_encode]
      exact hsize.symm
    · rw [← calculateCrc32_eq (by rw [length_flatMap_encode]; omega)]
      rfl

/-- A block that was written is a block of its records. -/
theorem blockRecords_blockBytes [LawfulZlib] (halign : off % BLOCK_SIZE = 0) (hend : off + BLOCK_SIZE < 2 ^ 64)
    (hne : ps ≠ []) (hroom : (ps.map diskSize).sum ≤ PAYLOAD_CAPACITY) (hat : At file.bytes off (blockBytes ps)) :
    Discovered file off (viewAt off (derivedHeader ps)) ∧ Framed file (viewAt off (derivedHeader ps)) ps := by
  rw [blockBytes, ← List.append_assoc] at hat
  exact blockRecords_at halign hend hne hroom hat.left

/-! ## Entries and records -/

omit [Zlib] in
theorem tiles_metasFrom (ps : List Payload) (start : Nat) :
    Tiles start (metasFrom start ps) (start + (ps.flatMap encode).length) := by
  induction ps generalizing start with
  | nil => rfl
  | cons p ps ih =>
    refine ⟨rfl, rfl, ?_, ?_⟩
    · show start + fixedPartDiskSize + p.key.bytes.length = start + fixedPartDiskSize + p.key.size32.toNat
      rw [ArenaEntry.size32_toNat]
    · rw [metaAt_diskSize, List.flatMap_cons, List.length_append, length_encode, ← Nat.add_assoc]
      exact ih (start + p.diskSize)

omit [Zlib] in
theorem ofTake_at {b : List UInt8} {o : Nat} {e : ArenaEntry} (hat : At b o e.bytes) :
    ArenaEntry.ofTake (b.drop o) e.size32 = e := by
  refine ArenaEntry.ext_bytes ?_
  show (b.drop o).take e.size32.toNat = e.bytes
  rw [ArenaEntry.size32_toNat]
  exact (List.prefix_iff_eq_take.mp hat).symm

omit [Zlib] in
theorem readPart_at (hf : file.Sound) {o stop : Nat} {e : ArenaEntry} (hat : At file.bytes o e.bytes)
    (hfit : e.bytes = [] ∨ e.bytes.length ≤ BLOCK_SIZE - o % BLOCK_SIZE) (hstop : stop = o + e.size)
    (message : String) : DataBlock.readPart e.size32 o stop message file = .ok e.bytes := by
  unfold DataBlock.readPart
  rw [ArenaEntry.size32_toNat]
  by_cases h0 : e.bytes.length > 0
  · rw [if_pos h0, decodes_bytes (by decide) e.bytes file o hf hfit hat]
    dsimp only
    rw [if_neg (by rw [hstop, not_not]; rfl)]
  · rw [if_neg h0]
    have hnil : e.bytes = [] := List.eq_nil_of_length_eq_zero (by omega)
    rw [hnil]

omit [Zlib] in
theorem ofTake_self (e : ArenaEntry) : ArenaEntry.ofTake e.bytes e.size32 = e := by
  have hat : At e.bytes 0 e.bytes := List.prefix_refl _
  exact ofTake_at hat

omit [Zlib] in
theorem readMeta_of {m : RecordMeta} {key value : List UInt8}
    (hkey : DataBlock.readPart m.keySize m.keyOffset m.valueOffset "key read did not end at the validated value offset"
      file = .ok key)
    (hvalue : DataBlock.readPart m.valueSize m.valueOffset (m.recordOffset + m.diskSize)
      "value read did not end at the validated record boundary" file = .ok value) :
    DataBlock.readMeta m file = .ok ⟨.ofTake key m.keySize, .ofTake value m.valueSize, m.type, m.seqNum⟩ := by
  unfold DataBlock.readMeta
  rw [hkey, ok_bind, hvalue, ok_bind]
  rfl

/-- What the lookups see of an entry. -/
structure Describes (file : ReadableFile) (h : Header) (payload : List UInt8) (p : Payload) (m : RecordMeta) :
    Prop where
  key : DataBlock.recordKey h payload m = .ok p.key.bytes
  read : DataBlock.readMeta m file = .ok p.record
  stored : recordAt file m = p.record

omit [Zlib] in
theorem describes_metaAt (hf : file.Sound) (hd : Discovered file off h) {payload r : List UInt8} {p : Payload}
    {position : Nat} (hat : At file.bytes h.payloadOffset payload)
    (hlen : payload.length = h.header.payloadDiskSize.toNat) (hp : payload.drop position = p.encode ++ r) :
    Describes file h payload p (metaAt (h.payloadOffset + position) p) := by
  have hb : BLOCK_SIZE = 4096 := rfl
  obtain ⟨hstart, hroom⟩ := hd.room
  rw [hb] at hstart hroom
  rw [DataSection.Header.diskSize] at hstart
  have hsize := congrArg List.length hp
  rw [List.length_drop, List.length_append, length_encode] at hsize
  have hdisk : p.diskSize = 25 + p.key.bytes.length + p.value.bytes.length := rfl
  have hk : p.key.size32.toNat = p.key.bytes.length := ArenaEntry.size32_toNat p.key
  have hv : p.value.size32.toNat = p.value.bytes.length := ArenaEntry.size32_toNat p.value
  have hsplit : payload = payload.take position ++ (p.encode ++ r) := by
    rw [← hp, List.take_append_drop]
  have htake : (payload.take position).length = position := by
    rw [List.length_take]
    omega
  -- the record in the file, and its key and value
  have hrec : At file.bytes (h.payloadOffset + position) p.encode := by
    rw [hsplit] at hat
    have hright := hat.right
    rw [htake] at hright
    exact hright.left
  rw [encode_eq] at hrec
  have hkv := hrec.right
  rw [length_fixed] at hkv
  have hkey := hkv.left
  have hvalue := hkv.right
  have hkeyFit : p.key.bytes = [] ∨ p.key.bytes.length ≤
      BLOCK_SIZE - (h.payloadOffset + position + fixedPartDiskSize) % BLOCK_SIZE := by
    rw [hb, fixedPartDiskSize]
    by_cases h0 : p.key.bytes = []
    · exact .inl h0
    · have hpos := List.length_pos_iff.mpr h0
      exact .inr (by omega)
  have hvalueFit : p.value.bytes = [] ∨ p.value.bytes.length ≤
      BLOCK_SIZE - (h.payloadOffset + position + fixedPartDiskSize + p.key.bytes.length) % BLOCK_SIZE := by
    rw [hb, fixedPartDiskSize]
    by_cases h0 : p.value.bytes = []
    · exact .inl h0
    · have hpos := List.length_pos_iff.mpr h0
      exact .inr (by omega)
  refine ⟨?_, ?_, ?_⟩
  · unfold DataBlock.recordKey metaAt
    dsimp only
    rw [hk, if_neg (by omega), fixedPartDiskSize, if_neg (by omega)]
    have hrel : h.payloadOffset + position + 25 - h.payloadOffset = position + 25 := by omega
    rw [hrel, ← List.drop_drop, hp, encode_eq, List.append_assoc, List.append_assoc]
    have hfix : (List.drop 25 (p.fixed.encode ++ (p.key.bytes ++ (p.value.bytes ++ r)))) =
        p.key.bytes ++ (p.value.bytes ++ r) := List.drop_left' (length_fixed _)
    rw [hfix, List.take_left]
  · have hstop : h.payloadOffset + position + (metaAt (h.payloadOffset + position) p).diskSize =
        h.payloadOffset + position + fixedPartDiskSize + p.key.bytes.length + p.value.size := by
      rw [metaAt_diskSize, hdisk, fixedPartDiskSize, ArenaEntry.size]
      omega
    refine (readMeta_of (readPart_at hf hkey hkeyFit rfl _) (readPart_at hf hvalue hvalueFit hstop _)).trans ?_
    have hkeyEntry : ArenaEntry.ofTake p.key.bytes p.key.size32 = p.key := ofTake_self p.key
    have hvalueEntry : ArenaEntry.ofTake p.value.bytes p.value.size32 = p.value := ofTake_self p.value
    show Except.ok (StoredRecord.mk (.ofTake p.key.bytes p.key.size32) (.ofTake p.value.bytes p.value.size32) p.type
      p.seqNum) = _
    rw [hkeyEntry, hvalueEntry]
    rfl
  · unfold recordAt metaAt record
    dsimp only
    rw [ofTake_at hkey, ofTake_at hvalue]

omit [Zlib] in
theorem describes_metasFrom (hf : file.Sound) (hd : Discovered file off h) {payload : List UInt8}
    (hat : At file.bytes h.payloadOffset payload) (hlen : payload.length = h.header.payloadDiskSize.toNat)
    (position : Nat) (hp : payload.drop position = ps.flatMap encode) :
    List.Forall₂ (Describes file h payload) ps (metasFrom (h.payloadOffset + position) ps) := by
  induction ps generalizing position with
  | nil => exact .nil
  | cons p ps ih =>
    rw [List.flatMap_cons] at hp
    refine .cons (describes_metaAt hf hd hat hlen hp) ?_
    have hrest := drop_field hp
    rw [length_encode] at hrest
    rw [Nat.add_assoc]
    exact ih _ hrest

theorem Framed.describes (hf : file.Sound) (hd : Discovered file off h) (hp : Framed file h ps) :
    List.Forall₂ (Describes file h (ps.flatMap encode)) ps (validated h ps).records :=
  describes_metasFrom hf hd hp.stands hp.length 0 List.drop_zero

/-- The ranges of the entries have the records. -/
theorem Framed.recordAt (hf : file.Sound) (hd : Discovered file off h) (hp : Framed file h ps) :
    (validated h ps).records.map (recordAt file) = ps.map record := by
  have hall := hp.describes hf hd
  generalize (validated h ps).records = ms at hall
  clear hp
  generalize ps.flatMap encode = payload at hall
  induction hall with
  | nil => rfl
  | cons hpm _ ih => rw [List.map_cons, List.map_cons, hpm.stored, ih]

/-! ## Lookups -/

/-- The key is below the searched one. -/
def keyBelow (searched : ArenaEntry) (p : Payload) : Bool := decide (p.key < searched)

def keyIs (searched : ArenaEntry) (p : Payload) : Bool := decide (p.key = searched)

omit [Zlib] in
/-- The search by halving over the entries is the one over the keys of the records. -/
theorem searchLoop_eq {key : RecordMeta → Except Status (List UInt8)} {ms : List RecordMeta}
    (hall : List.Forall₂ (fun (p : Payload) m => key m = .ok p.key.bytes) ps ms) (searched : ArenaEntry)
    (fuel first last : Nat) (hle : first ≤ last) :
    DataBlock.searchLoop key ms searched.bytes fuel first last =
      .ok (LowerBound.loop (keyBelow searched) ps fuel first (last - first)) := by
  induction fuel generalizing first last with
  | zero => rfl
  | succ fuel ih =>
    unfold DataBlock.searchLoop LowerBound.loop
    by_cases hlt : first < last
    · rw [if_pos hlt, if_neg (by omega)]
      rcases forall₂_getElem? hall (first + (last - first) / 2) with ⟨hp, hm⟩ | ⟨p, m, hp, hm, hkey⟩
      · rw [hp, hm]
      · rw [hp, hm]
        dsimp only
        rw [hkey]
        dsimp only
        by_cases hbefore : p.key < searched
        · rw [if_pos (compareKeys_lt_iff.mpr hbefore), if_pos
            (show keyBelow searched p = true from decide_eq_true hbefore), ih _ _ (by omega)]
          congr 2
          omega
        · rw [if_neg (fun h => hbefore (compareKeys_lt_iff.mp h)),
            if_neg (by rw [keyBelow, decide_eq_true_eq]; exact hbefore), ih _ _ (by omega)]
          congr 2
          omega
    · rw [if_neg hlt, if_pos (by omega)]

omit [Zlib] in
theorem precedes_key {p q : Payload} (hpq : Precedes p q) : p.key ≤ q.key := by
  rcases hpq with hlt | ⟨heq, -⟩
  · exact hlt.le
  · exact heq.le

/-- The search of a validated payload finds the first record with the key. -/
theorem searchPayload_eq (hf : file.Sound) (hd : Discovered file off h) (hp : Framed file h ps)
    (hpw : ps.Pairwise Precedes) (searched : ArenaEntry) :
    DataBlock.searchPayload (validated h ps) (ps.flatMap encode) searched =
      .ok (ps.findIdx? (keyIs searched)) := by
  have hall := hp.describes hf hd
  have hkeys : List.Forall₂ (fun (p : Payload) m => DataBlock.recordKey (validated h ps).headerView
      (ps.flatMap encode) m = .ok p.key.bytes) ps (validated h ps).records := hall.imp fun _ _ hpm => hpm.key
  have hsplits : Splits (keyBelow searched) ps := by
    refine hpw.imp fun {p q} hpq hq => ?_
    unfold keyBelow at hq ⊢
    rw [decide_eq_true_eq] at hq ⊢
    exact (precedes_key hpq).trans_lt hq
  have hfind : ps.findIdx? (keyIs searched) = ps[lowerBound (keyBelow searched) ps]?.bind fun p =>
      if keyIs searched p then some (lowerBound (keyBelow searched) ps) else none := by
    refine findIdx?_eq hsplits ?_ ?_
    · intro p _ hq
      unfold keyBelow
      unfold keyIs at hq
      rw [decide_eq_true_eq] at hq
      rw [hq, decide_eq_false_iff_not]
      exact lt_irrefl searched
    · refine hpw.imp fun {p q} hpq hp hq => ?_
      unfold keyBelow at hp
      unfold keyIs at hq ⊢
      rw [decide_eq_false_iff_not, not_lt] at hp
      rw [decide_eq_true_eq] at hq ⊢
      exact le_antisymm (hq ▸ precedes_key hpq) hp
  have hlength : (validated h ps).records.length = ps.length := length_metasFrom _ _
  have hloop : DataBlock.searchLoop (DataBlock.recordKey (validated h ps).headerView (ps.flatMap encode))
      (validated h ps).records searched.bytes (validated h ps).records.length 0 (validated h ps).records.length =
      .ok (lowerBound (keyBelow searched) ps) := by
    rw [searchLoop_eq hkeys searched _ _ _ (Nat.zero_le _), hlength]
    rfl
  unfold DataBlock.searchPayload
  rw [hloop, ok_bind, hfind]
  rcases forall₂_getElem? hkeys (lowerBound (keyBelow searched) ps) with
    ⟨hn, hm⟩ | ⟨p, m, hsome, hm, hkey⟩
  · rw [hn, hm]
    rfl
  · rw [hsome, hm, Option.bind_some]
    dsimp only
    rw [hkey, ok_bind]
    by_cases heq : p.key = searched
    · rw [if_neg (by rw [not_not]; exact compareKeys_eq_iff.mpr heq),
        if_pos (show keyIs searched p = true from decide_eq_true heq)]
    · rw [if_pos (fun hc => heq (compareKeys_eq_iff.mp hc)), if_neg (by rw [keyIs, decide_eq_true_eq]; exact heq)]

theorem readPayload_eq (hf : file.Sound) (hd : Discovered file off h) (hp : Framed file h ps) :
    DataBlock.readPayload (validated h ps) file = .ok (ps.flatMap encode) := by
  unfold DataBlock.readPayload validated
  dsimp only
  rw [if_neg (by have := hd.capacity; omega)]
  have hread := hp.readBytes hf hd
  rw [hread]
  dsimp only
  rw [if_neg (by rw [hd.payloadEnd, not_not])]

theorem findFirstRecord_eq (hf : file.Sound) (hd : Discovered file off h) (hp : Framed file h ps)
    (hpw : ps.Pairwise Precedes) (searched : ArenaEntry) :
    DataBlock.findFirstRecord file searched (validated h ps) =
      (.ok (ps.findIdx? (keyIs searched)), validated h ps) := by
  have hval : DataBlock.validate file (validated h ps) = (.ok (), validated h ps) := rfl
  unfold DataBlock.findFirstRecord
  rw [bind_ok hval, bind_ok (get_apply _), readPayload_eq hf hd hp, bind_ok (lift_ok _ _),
    searchPayload_eq hf hd hp hpw]
  rfl

theorem readRecord_eq (hf : file.Sound) (hd : Discovered file off h) (hp : Framed file h ps) {i : Nat} {p : Payload}
    (hi : ps[i]? = some p) :
    DataBlock.readRecord file i (validated h ps) = (.ok p.record, validated h ps) := by
  have hval : DataBlock.validate file (validated h ps) = (.ok (), validated h ps) := rfl
  unfold DataBlock.readRecord
  rw [bind_ok hval, bind_ok (get_apply _)]
  rcases forall₂_getElem? (hp.describes hf hd) i with ⟨hn, -⟩ | ⟨q, m, hq, hm, hdesc⟩
  · rw [hn] at hi
    cases hi
  · rw [hi] at hq
    cases hq
    rw [hm]
    dsimp only
    rw [hdesc.read]
    rfl

/-- **Validation makes lookups total.**  The entries of an accepted block lie end to end over its
payload, the records in them are in strict internal order, the search gives the first of them
with the key, or nothing when there is none, and every index reads its record. -/
theorem validate_makes_total (hf : file.Sound) {sectionEnd off' : Nat} {b b' : DataBlock}
    (hload : DataBlock.load sectionEnd file off = .ok (b, off')) (hval : DataBlock.validate file b = (.ok (), b')) :
    Tiles b'.headerView.payloadOffset b'.records b'.headerView.payloadEndOffset ∧
      (b'.records.map (DataSectionView.recordAt file)).Pairwise recordPrecedes ∧
      (∀ key, DataBlock.findFirstRecord file key b' =
        (.ok ((b'.records.map (DataSectionView.recordAt file)).findIdx? fun r => r.key = key), b')) ∧
      ∀ i < b'.recordCount, ∃ r, (b'.records.map (DataSectionView.recordAt file))[i]? = some r ∧
        DataBlock.readRecord file i b' = (.ok r, b') := by
  obtain ⟨hd, hfresh, -, -⟩ := load_discovered hload
  rw [hfresh] at hval
  obtain ⟨ps, hp, -, hpw, rfl⟩ := validate_ok hd hval
  have hrecords := hp.recordAt hf hd
  have htiles := tiles_metasFrom ps b.headerView.payloadOffset
  rw [hp.length, ← hd.payloadEnd] at htiles
  refine ⟨htiles, ?_, fun key => ?_, fun i hi => ?_⟩
  · rw [hrecords, List.pairwise_map]
    exact hpw
  · rw [findFirstRecord_eq hf hd hp hpw, hrecords, List.findIdx?_map]
    rfl
  · have hlt : i < ps.length := by
      have hcount : (validated b.headerView ps).recordCount = ps.length := length_metasFrom _ _
      omega
    refine ⟨(ps.get ⟨i, hlt⟩).record, ?_, readRecord_eq hf hd hp ?_⟩
    · rw [hrecords, List.getElem?_map, List.getElem?_eq_getElem hlt]
      rfl
    · exact List.getElem?_eq_getElem hlt

end

/-- A file of one block. -/
def blockFile [Zlib] (ps : List Payload) : ReadableFile := .ofBytes (blockBytes ps) "1.sst"

theorem blockFile_framed [Zlib] [LawfulZlib] (ps : List Payload) (hne : ps ≠ [])
    (hroom : (ps.map diskSize).sum ≤ PAYLOAD_CAPACITY) :
    Discovered (blockFile ps) 0 (viewAt 0 (derivedHeader ps)) ∧
      Framed (blockFile ps) (viewAt 0 (derivedHeader ps)) ps :=
  blockRecords_blockBytes rfl (by decide) hne hroom (List.prefix_refl _)

/-- Two versions of one key. -/
def twoVersions : List Payload :=
  [⟨.ofByte 1, .empty, RecType.tombstone.toU8, 0, 0, 2⟩, ⟨.ofByte 1, .ofByte 7, RecType.put.toU8, 0, 0, 1⟩]

theorem twoVersions_ordered : (∀ p ∈ twoVersions, Canonical p) ∧ twoVersions.Pairwise Precedes := by
  refine ⟨?_, ?_⟩
  · intro p hp
    rcases List.mem_pair.mp hp with rfl | rfl
    · exact ⟨rfl, rfl, rfl⟩
    · exact ⟨rfl, rfl, rfl⟩
  · refine List.pairwise_pair.mpr (.inr ⟨rfl, by decide⟩)

theorem validate_makes_total_twoVersions :
    ∃ b off' b', @DataBlock.load BLOCK_SIZE (@blockFile documentedZlib twoVersions) 0 = .ok (b, off') ∧
      @DataBlock.validate documentedZlib (@blockFile documentedZlib twoVersions) b = (.ok (), b') ∧
      @DataBlock.findFirstRecord documentedZlib (@blockFile documentedZlib twoVersions) (.ofByte 1) b' =
        (.ok ((b'.records.map (DataSectionView.recordAt (@blockFile documentedZlib twoVersions))).findIdx?
          fun r => r.key = .ofByte 1), b') := by
  let _ := documentedZlib
  have := documentedZlib_lawful
  have hf : (blockFile twoVersions).Sound := ReadableFile.ofBytes_sound _ _
  obtain ⟨hd, hp⟩ := blockFile_framed twoVersions (by simp [twoVersions]) (by decide)
  have hload := load_of_discovered hf hd (Nat.le_refl _)
  have hval := validate_framed hf hd hp twoVersions_ordered.1 twoVersions_ordered.2
  exact ⟨_, _, _, hload, hval, (validate_makes_total hf hload hval).2.2.1 (.ofByte 1)⟩

end DataSectionView

end Kvdb
