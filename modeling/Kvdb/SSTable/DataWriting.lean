import Kvdb.SSTable.IndexSection
import Kvdb.SSTable.Packing
import Kvdb.Utils.Fields
import Mathlib.Algebra.Order.BigOperators.Group.List

/-!
# Writing the data blocks

`DataBlock::write` and `DataSection::write`: the blocks start at block edges, one
behind the other, and each adds its entry to the index.

    emits_writeBlocks: valid blocks whose entries are a well-formed index are written
    writeBlocks_ok:    nothing else is
-/

namespace Kvdb

open Faulty Bytes

namespace DataSection

open Payload DataSectionView

/-! ## The writers -/

def Header.write (h : Header) : WriterM Status Unit := do
  checkCursor "tracked data-header offset does not match the writable file cursor"
  let w ← Faulty.get
  ensure (w.offset % BLOCK_SIZE == 0)
    ⟨.invalidBlockAlignment, "data block header must start at a physical block boundary"⟩
  ensure (h.type == BlockType.data.toU8) ⟨.invalidBlockType, "data block header has a non-data block type"⟩
  ensure (decide (h.payloadDiskSize.toNat ≤ PAYLOAD_CAPACITY))
    ⟨.invalidPayloadSize, "data block header payload size exceeds physical block capacity"⟩
  BloomSection.fitsHere diskSize
  writeU8 h.type BLOCK_SIZE
  writeU32Le h.payloadDiskSize BLOCK_SIZE
  writeU32Le h.crc32 BLOCK_SIZE

def Payload.write (p : Payload) : WriterM Status Unit := do
  lift p.validate
  checkCursor "tracked data-payload offset does not match the writable file cursor"
  BloomSection.fitsHere p.diskSize
  writeU32Le p.key.size32 BLOCK_SIZE
  writeU32Le p.value.size32 BLOCK_SIZE
  writeU8 p.type BLOCK_SIZE
  writeU32Le p.flags BLOCK_SIZE
  writeU32Le p.reserved BLOCK_SIZE
  writeU64Le p.seqNum BLOCK_SIZE
  writeRawBytes p.key.bytes BLOCK_SIZE
  writeRawBytes p.value.bytes BLOCK_SIZE

/-- The records of a block one after the other. -/
def writePayloads : List Payload → WriterM Status Unit
  | [] => pure ()
  | p :: ps => do
    p.write
    writePayloads ps

/-- The first and the last key of a block. -/
def blockKeys (ps : List Payload) : Option (ArenaEntry × ArenaEntry) :=
  match ps.head?, ps.getLast? with
  | some first, some last => some (first.key, last.key)
  | _, _ => none

section

variable [Zlib]

/-- The index with the entry of a block that was written. -/
def addBlock (index : IndexSection) (dataBlockOffset : Nat) (ps : List Payload) : Except Status IndexSection :=
  match blockKeys ps with
  | none => .ok index
  | some (first, last) => index.addIndex (UInt64.ofNat dataBlockOffset) first last

/-- `DataBlock::write`. -/
def writeBlock (index : IndexSection) (ps : List Payload) : WriterM Status IndexSection := do
  let header ← lift (rebuildHeader ps)
  checkCursor "tracked data-block offset does not match the writable file cursor"
  alignToBlockBoundary BLOCK_SIZE
  let w ← Faulty.get
  header.write
  writePayloads ps
  lift (addBlock index w.offset ps)

/-- The blocks one after the other. -/
def writeBlocks (index : IndexSection) : List (List Payload) → WriterM Status IndexSection
  | [] => pure index
  | b :: bs => do
    let index ← writeBlock index b
    writeBlocks index bs

/-- The order check between two blocks, if there is one in front. -/
def orderBlocks (previous : Option Payload) (ps : List Payload) : Except Status Unit :=
  match previous, ps.head? with
  | some previous, some front => validateOrder previous front
  | _, _ => .ok ()

/-- The loop of `DataSection::validate`. -/
def validateBlocks : Option Payload → List (List Payload) → Except Status Unit
  | _, [] => .ok ()
  | previous, b :: bs => do
    validateBlock b
    orderBlocks previous b
    validateBlocks b.getLast? bs

/-- The headers that `DataSection::write` derives before the first byte. -/
def rebuildHeaders : List (List Payload) → Except Status Unit
  | [] => .ok ()
  | b :: bs => do
    let _ ← rebuildHeader b
    rebuildHeaders bs

/-- `DataSection::write`: the index of the blocks, and the offset of the first one. -/
def write (blocks : List (List Payload)) : WriterM Status (IndexSection × Nat) := do
  lift (validateBlocks none blocks)
  checkCursor "tracked data-section offset does not match the writable file cursor"
  if blocks = [] then do
    let w ← Faulty.get
    pure (IndexSection.empty, w.offset)
  else do
    lift (rebuildHeaders blocks)
    alignToBlockBoundary BLOCK_SIZE
    let w ← Faulty.get
    let index ← writeBlocks IndexSection.empty blocks
    pure (index, w.offset)

end

/-! ## Valid blocks -/

/-- A block that `DataBlock::validate` accepts. -/
structure ValidBlock (ps : List Payload) : Prop where
  ne : ps ≠ []
  canonical : ∀ p ∈ ps, Canonical p
  fits : (ps.map diskSize).sum ≤ PAYLOAD_CAPACITY
  ordered : ps.IsChain Precedes

theorem ValidBlock.validate {ps : List Payload} (h : ValidBlock ps) {p : Payload} (hp : p ∈ ps) :
    p.validate = .ok () := by
  have hle : p.diskSize ≤ (ps.map diskSize).sum := List.single_le_sum (by simp) _ (List.mem_map_of_mem hp)
  exact (validate_ok_iff p).mpr ⟨h.canonical p hp, le_trans hle h.fits⟩

theorem orderAfter_ok_iff (previous : Option Payload) (p : Payload) :
    orderAfter previous p = .ok () ↔ ∀ q ∈ previous, Precedes q p := by
  cases previous with
  | none => simp [orderAfter]
  | some q => simpa [orderAfter] using validateOrder_ok_iff q p

theorem isChain_toList (previous : Option Payload) : previous.toList.IsChain Precedes := by
  cases previous with
  | none => exact .nil
  | some q => exact .singleton q

theorem isChain_after (previous : Option Payload) (ps : List Payload) :
    (previous.toList ++ ps).IsChain Precedes ↔
      ps.IsChain Precedes ∧ ∀ q ∈ previous, ∀ p ∈ ps.head?, Precedes q p := by
  rw [List.isChain_append, and_iff_right (isChain_toList previous)]
  cases previous with
  | none => simp
  | some q => simp

/-- What the loop of `DataBlock::validate` accepts behind a record. -/
theorem validatePayloads_ok_iff (previous : Option Payload) (payloadBytes : Nat) (ps : List Payload)
    (hbytes : payloadBytes ≤ PAYLOAD_CAPACITY) :
    validatePayloads previous payloadBytes ps = .ok () ↔
      (∀ p ∈ ps, Canonical p) ∧ payloadBytes + (ps.map diskSize).sum ≤ PAYLOAD_CAPACITY ∧
        (previous.toList ++ ps).IsChain Precedes := by
  induction ps generalizing previous payloadBytes with
  | nil => simpa [validatePayloads, isChain_toList] using hbytes
  | cons p ps ih =>
    rw [isChain_after, List.map_cons, List.sum_cons, ← Nat.add_assoc, List.forall_mem_cons]
    constructor
    · intro h
      obtain ⟨_, hp, h⟩ := except_bind_ok h
      obtain ⟨_, horder, h⟩ := except_bind_ok h
      split at h
      · cases h
      obtain ⟨hall, hfits, hchain⟩ := (ih (some p) _ (by omega)).mp h
      refine ⟨⟨((validate_ok_iff p).mp hp).1, hall⟩, hfits, hchain, ?_⟩
      intro q hq p' hp'
      cases hp'
      exact (orderAfter_ok_iff _ _).mp horder q hq
    · rintro ⟨⟨hp, hall⟩, hfits, hchain, hfirst⟩
      have hrest := (ih (some p) (payloadBytes + p.diskSize) (by omega)).mpr ⟨hall, hfits, hchain⟩
      have horder := (orderAfter_ok_iff previous p).mpr fun q hq => hfirst q hq p rfl
      rw [validatePayloads, (validate_ok_iff p).mpr ⟨hp, by omega⟩, ok_bind, horder, ok_bind,
        if_neg (by omega), hrest]

theorem validateBlock_ok_iff (ps : List Payload) : validateBlock ps = .ok () ↔ ValidBlock ps := by
  unfold validateBlock
  by_cases hne : ps = []
  · rw [if_pos hne]
    constructor
    · intro h
      cases h
    · intro h
      exact absurd hne h.ne
  · rw [if_neg hne, validatePayloads_ok_iff none 0 ps (Nat.zero_le _), Nat.zero_add]
    constructor
    · rintro ⟨hcanonical, hfits, hordered⟩
      exact ⟨hne, hcanonical, hfits, hordered⟩
    · rintro ⟨-, hcanonical, hfits, hordered⟩
      exact ⟨hcanonical, hfits, hordered⟩

theorem orderBlocks_ok_iff (previous : Option Payload) (ps : List Payload) :
    orderBlocks previous ps = .ok () ↔ ∀ q ∈ previous, ∀ p ∈ ps.head?, Precedes q p := by
  unfold orderBlocks
  cases previous with
  | none => simp
  | some q =>
    cases ps with
    | nil => simp
    | cons p ps => simpa using validateOrder_ok_iff q p

/-- What the loop of `DataSection::validate` accepts behind a record. -/
theorem validateBlocks_ok_iff (previous : Option Payload) (blocks : List (List Payload)) :
    validateBlocks previous blocks = .ok () ↔
      (∀ b ∈ blocks, ValidBlock b) ∧ (previous.toList ++ blocks.flatten).IsChain Precedes := by
  induction blocks generalizing previous with
  | nil => simp [validateBlocks, isChain_toList]
  | cons b bs ih =>
    have hsplit : ValidBlock b → ((previous.toList ++ (b :: bs).flatten).IsChain Precedes ↔
        (∀ q ∈ previous, ∀ p ∈ b.head?, Precedes q p) ∧ (b.getLast?.toList ++ bs.flatten).IsChain
          Precedes) := by
      intro hb
      have hhead : (b ++ bs.flatten).head? = b.head? := by
        cases b with
        | nil => exact absurd rfl hb.ne
        | cons p ps => rfl
      rw [isChain_after, isChain_after, List.flatten_cons, List.isChain_append, hhead]
      constructor
      · rintro ⟨⟨-, hrest, hbetween⟩, hfirst⟩
        exact ⟨hfirst, hrest, hbetween⟩
      · rintro ⟨hfirst, hrest, hbetween⟩
        exact ⟨⟨hb.ordered, hrest, hbetween⟩, hfirst⟩
    rw [List.forall_mem_cons]
    constructor
    · intro h
      obtain ⟨_, hb, h⟩ := except_bind_ok h
      obtain ⟨_, horder, h⟩ := except_bind_ok h
      have hvalid := (validateBlock_ok_iff b).mp hb
      obtain ⟨hall, hchain⟩ := (ih b.getLast?).mp h
      exact ⟨⟨hvalid, hall⟩, (hsplit hvalid).mpr ⟨(orderBlocks_ok_iff _ _).mp horder, hchain⟩⟩
    · rintro ⟨⟨hvalid, hall⟩, hchain⟩
      obtain ⟨horder, hrest⟩ := (hsplit hvalid).mp hchain
      rw [validateBlocks, (validateBlock_ok_iff b).mpr hvalid, ok_bind, (orderBlocks_ok_iff _ _).mpr horder, ok_bind,
        (ih b.getLast?).mpr ⟨hall, hrest⟩]

instance : IsTrans Payload Precedes := ⟨fun _ _ _ h h' => h.trans h'⟩

/-- `DataSection::validate` accepts what records were packed into. -/
theorem validateSection_ok_iff (blocks : List (List Payload)) :
    validateBlocks none blocks = .ok () ↔ Packed blocks blocks.flatten := by
  rw [validateBlocks_ok_iff]
  show _ ∧ blocks.flatten.IsChain Precedes ↔ _
  rw [List.isChain_iff_pairwise]
  constructor
  · rintro ⟨hall, hordered⟩
    refine ⟨rfl, fun b hb => (hall b hb).ne, fun b hb => (hall b hb).fits, ?_, hordered⟩
    intro p hp
    obtain ⟨b, hb, hpb⟩ := List.mem_flatten.mp hp
    exact (hall b hb).canonical p hpb
  · intro h
    refine ⟨fun b hb => ⟨h.ne b hb, ?_, h.fits b hb, ?_⟩, h.ordered⟩
    · intro p hp
      exact h.canonical p (List.mem_flatten.mpr ⟨b, hb, hp⟩)
    · exact (h.ordered.sublist (List.sublist_flatten_of_mem hb)).isChain

/-! ## What is written -/

/-- The index entry of a block at `off`. -/
def blockEntry (off : Nat) (ps : List Payload) : List IndexSection.Payload :=
  match blockKeys ps with
  | none => []
  | some (first, last) => [⟨UInt64.ofNat off, first, last⟩]

/-- The index entries of blocks from `off` on. -/
def blockEntries : Nat → List (List Payload) → List IndexSection.Payload
  | _, [] => []
  | off, b :: bs => blockEntry off b ++ blockEntries (off + BLOCK_SIZE) bs

theorem exists_blockKeys {ps : List Payload} (h : ps ≠ []) :
    ∃ first last, ps.head? = some first ∧ ps.getLast? = some last ∧
      blockKeys ps = some (first.key, last.key) := by
  obtain ⟨p, qs, rfl⟩ := List.exists_cons_of_ne_nil h
  exact ⟨p, (p :: qs).getLast h, rfl, List.getLast?_eq_some_getLast
    h, by simp [blockKeys, List.getLast?_eq_some_getLast h]⟩

theorem length_blockEntries {blocks : List (List Payload)} (h : ∀ b ∈ blocks, b ≠ []) (off : Nat) :
    (blockEntries off blocks).length = blocks.length := by
  induction blocks generalizing off with
  | nil => rfl
  | cons b bs ih =>
    obtain ⟨first, last, -, -, hkeys⟩ := exists_blockKeys (h b (by simp))
    rw [blockEntries, blockEntry, hkeys, List.length_append, ih (fun c hc => h c (by simp [hc])), List.length_cons]
    exact Nat.add_comm _ _

section

variable [Zlib]

/-- The header and the records of a block. -/
def blockBody (ps : List Payload) : List UInt8 := (derivedHeader ps).encode ++ ps.flatMap encode

/-- The blocks as they stand in a file that ended at `off`. -/
def blocksBytes : Nat → List (List Payload) → List UInt8
  | _, [] => []
  | off, b :: bs => alignment off ++ (blockBody b ++ blocksBytes (aligned off + (blockBody b).length) bs)

theorem length_blockBody (ps : List Payload) : (blockBody ps).length = blockDiskSize ps := by
  rw [blockBody, List.length_append, Header.length_encode, length_flatMap_encode, blockDiskSize]

omit [Zlib] in
theorem ValidBlock.diskSize_le {ps : List Payload} (h : ValidBlock ps) : blockDiskSize ps ≤ BLOCK_SIZE := by
  have hcap : PAYLOAD_CAPACITY + Header.diskSize = BLOCK_SIZE := rfl
  have hfits := h.fits
  rw [blockDiskSize]
  omega

/-- The next block starts one block behind. -/
theorem aligned_blockBody {ps : List Payload} (h : ValidBlock ps) (off : Nat) :
    aligned (aligned off + (blockBody ps).length) = aligned off + BLOCK_SIZE := by
  refine aligned_add (aligned_mod off) ?_ ?_
  · rw [length_blockBody, blockDiskSize, Header.diskSize]
    omega
  · rw [length_blockBody]
    exact h.diskSize_le

theorem rebuildHeader_ok_iff (ps : List Payload) (h : Header) :
    rebuildHeader ps = .ok h ↔ ValidBlock ps ∧ h = derivedHeader ps := by
  have hcap : PAYLOAD_CAPACITY = 4087 := rfl
  constructor
  · intro hr
    obtain ⟨_, hvalid, hr⟩ := except_bind_ok hr
    split at hr
    · cases hr
    cases hr
    exact ⟨(validateBlock_ok_iff ps).mp hvalid, rfl⟩
  · rintro ⟨hvalid, rfl⟩
    have hfits := hvalid.fits
    rw [rebuildHeader, (validateBlock_ok_iff ps).mpr hvalid, ok_bind, if_neg (by omega)]

theorem addBlock_ok_iff {ps : List Payload} (hne : ps ≠ []) (es : List IndexSection.Payload) (off : Nat)
    (t : IndexSection) :
    addBlock (.ofPayloads es) off ps = .ok t ↔
      IndexSection.Sequence (es ++ blockEntry off ps) ∧ t = .ofPayloads (es ++ blockEntry off ps) := by
  obtain ⟨first, last, -, -, hkeys⟩ := exists_blockKeys hne
  rw [addBlock, blockEntry, hkeys]
  exact IndexSection.addIndex_ok_iff _ _ _ _ _

end

theorem writeRawBytes_fitting (d : List UInt8) : AppendsFitting BLOCK_SIZE (writeRawBytes d BLOCK_SIZE) d := by
  by_cases h : d = []
  · subst h
    exact fun _ _ _ => rfl
  · rw [writeRawBytes, if_neg h]
    exact writeBytes_fitting d

theorem Payload.write_fitting {p : Payload} (h : p.validate = .ok ()) : AppendsFitting BLOCK_SIZE p.write p.encode := by
  have henc : p.encode = u32Bytes p.key.size32 ++ (u32Bytes p.value.size32 ++ (u8Bytes p.type ++ (u32Bytes p.flags ++
      (u32Bytes p.reserved ++ (u64Bytes p.seqNum ++ (p.key.bytes ++ p.value.bytes)))))) := by
    simp [encode, fields]
  refine lift_fitting h ((checkCursor_fitting _).then (BloomSection.fitsHere_fitting p.length_encode.ge ?_))
  rw [henc]
  exact (writeU32_fitting _).bind ((writeU32_fitting _).bind ((writeU8_fitting _).bind ((writeU32_fitting _).bind
    ((writeU32_fitting _).bind ((writeU64_fitting _).bind
      ((writeRawBytes_fitting _).bind (writeRawBytes_fitting _)))))))

theorem writePayloads_fitting {ps : List Payload} (h : ∀ p ∈ ps, p.validate = .ok ()) :
    AppendsFitting BLOCK_SIZE (writePayloads ps) (ps.flatMap encode) := by
  induction ps with
  | nil => exact fun _ _ _ => rfl
  | cons p ps ih =>
    rw [List.flatMap_cons]
    exact (Payload.write_fitting (h p (by simp))).bind (ih fun q hq => h q (by simp [hq]))

section

variable [Zlib]

/-- At a block edge the header of a valid block is written. -/
theorem Header.emits_write {ps : List Payload} (h : ValidBlock ps) {off : Nat} (hedge : off % BLOCK_SIZE = 0) :
    Emits (derivedHeader ps).write off (derivedHeader ps).encode () := by
  have hfits := h.fits
  have hsize : (derivedHeader ps).payloadDiskSize.toNat ≤ PAYLOAD_CAPACITY := by
    show (UInt32.ofNat _).toNat ≤ _
    rw [UInt32.toNat_ofNat']
    exact le_trans (Nat.mod_le _ _) hfits
  refine (emits_checkCursor _ off).then (.get fun w hw ho => ?_)
  refine .guard (by rw [ho, hedge]; rfl) (.guard (by rfl) (.guard (decide_eq_true hsize) ?_))
  refine AppendsFitting.emits_edge (BloomSection.fitsHere_fitting (Header.length_encode _).ge ?_) hedge ?_
  · exact (writeU8_fitting _).bind ((writeU32_fitting _).bind (writeU32_fitting _))
  · rw [Header.length_encode]
    decide

/-- A valid block is written behind the alignment, and adds its entry. -/
theorem emits_writeBlock {ps : List Payload} (h : ValidBlock ps) {es : List IndexSection.Payload} {off : Nat}
    (hseq : IndexSection.Sequence (es ++ blockEntry (aligned off) ps)) :
    Emits (writeBlock (.ofPayloads es) ps) off (alignment off ++ blockBody ps)
      (.ofPayloads (es ++ blockEntry (aligned off) ps)) := by
  have hfits := h.fits
  have hcap : PAYLOAD_CAPACITY + Header.diskSize = BLOCK_SIZE := rfl
  have hedge := aligned_mod off
  have hrecords : Emits (writePayloads ps) (aligned off + (derivedHeader ps).encode.length) (ps.flatMap encode) () := by
    refine (writePayloads_fitting fun p hp => h.validate hp).emits ?_
    have hmod : (aligned off + Header.diskSize) % BLOCK_SIZE = Header.diskSize := by
      rw [Nat.add_mod, hedge, Nat.zero_add, Nat.mod_mod]
      rfl
    rw [length_flatMap_encode, Header.length_encode, hmod]
    omega
  have hadd := (addBlock_ok_iff h.ne es (aligned off) _).mpr ⟨hseq, rfl⟩
  refine Emits.lift ((rebuildHeader_ok_iff ps _).mpr ⟨h, rfl⟩) ((emits_checkCursor _ off).then ?_)
  refine (emits_align off).bind (.get fun w hw ho => ?_)
  rw [show w.offset = aligned off from ho]
  have hentry : Emits (lift (addBlock (.ofPayloads es) (aligned off) ps) : WriterM Status IndexSection)
      (aligned off + (derivedHeader ps).encode.length + (ps.flatMap encode).length) []
      (.ofPayloads (es ++ blockEntry (aligned off) ps)) := by
    rw [hadd]
    exact emits_pure _ _
  exact (Header.emits_write h hedge).bind (hrecords.last hentry)

/-- A block that was written is valid, and its entry goes on the index. -/
theorem writeBlock_ok {ps : List Payload} {es : List IndexSection.Payload} {w w' : Writer Status} {t : IndexSection}
    (hw : w.Synced) (h : writeBlock (.ofPayloads es) ps w = (.ok t, w')) :
    ValidBlock ps ∧ IndexSection.Sequence (es ++ blockEntry (aligned w.offset) ps) := by
  obtain ⟨header, hheader, h⟩ := lift_bind_eq_ok h
  obtain ⟨hvalid, rfl⟩ := (rebuildHeader_ok_iff _ _).mp hheader
  obtain ⟨_, w₁, hcheck, h⟩ := bind_eq_ok h
  rw [checkCursor_apply _ hw] at hcheck
  cases hcheck
  obtain ⟨_, w₂, halign, h⟩ := bind_eq_ok h
  obtain ⟨-, -, ho, -⟩ := (emits_align w.offset).ok_bytes hw rfl halign
  rw [bind_ok (get_apply w₂)] at h
  obtain ⟨_, w₃, -, h⟩ := bind_eq_ok h
  obtain ⟨_, w₄, -, h⟩ := bind_eq_ok h
  rw [show w₂.offset = aligned w.offset from ho] at h
  cases hadd : addBlock (.ofPayloads es) (aligned w.offset) ps with
  | error e =>
    rw [hadd] at h
    cases h
  | ok t' => exact ⟨hvalid, ((addBlock_ok_iff hvalid.ne es _ _).mp hadd).1⟩

/-- Valid blocks whose entries go on the index are written. -/
theorem emits_writeBlocks {blocks : List (List Payload)} (h : ∀ b ∈ blocks, ValidBlock b)
    {es : List IndexSection.Payload} {off : Nat}
    (hseq : IndexSection.Sequence (es ++ blockEntries (aligned off) blocks)) :
    Emits (writeBlocks (.ofPayloads es) blocks) off (blocksBytes off blocks)
      (.ofPayloads (es ++ blockEntries (aligned off) blocks)) := by
  induction blocks generalizing es off with
  | nil =>
    rw [blockEntries, List.append_nil]
    exact emits_pure _ _
  | cons b bs ih =>
    have hb := h b (by simp)
    have hnext := aligned_blockBody hb off
    rw [blockEntries, ← List.append_assoc] at hseq ⊢
    have hrest := @ih (fun c hc => h c (by simp [hc])) (es ++ blockEntry (aligned off) b)
      (aligned off + (blockBody b).length) (by rw [hnext]; exact hseq)
    rw [hnext] at hrest
    refine ((emits_writeBlock hb hseq.left).bind ?_).of_eq (List.append_assoc _ _ _)
    rw [List.length_append, ← Nat.add_assoc]
    exact hrest

omit [Zlib] in
/-- The edge behind valid blocks: each takes one block. -/
theorem aligned_blocksBytes [Zlib] {blocks : List (List Payload)} (h : ∀ b ∈ blocks, ValidBlock b) (off : Nat) :
    aligned (off + (blocksBytes off blocks).length) = aligned off + blocks.length * BLOCK_SIZE := by
  induction blocks generalizing off with
  | nil => simp [blocksBytes]
  | cons b bs ih =>
    have hb := h b (by simp)
    have hrest := ih (fun c hc => h c (by simp [hc])) (aligned off + (blockBody b).length)
    rw [aligned_blockBody hb] at hrest
    have hlen : off + (blocksBytes off (b :: bs)).length = aligned off + (blockBody b).length +
        (blocksBytes (aligned off + (blockBody b).length) bs).length := by
      rw [blocksBytes, List.length_append, List.length_append, aligned]
      omega
    rw [hlen, hrest, List.length_cons, Nat.add_mul]
    omega

/-- The blocks that were written are valid, and their entries go on the index. -/
theorem writeBlocks_ok {blocks : List (List Payload)} {es : List IndexSection.Payload} {w w' : Writer Status}
    {t : IndexSection} (hes : IndexSection.Sequence es) (hw : w.Synced)
    (h : writeBlocks (.ofPayloads es) blocks w = (.ok t, w')) :
    IndexSection.Sequence (es ++ blockEntries (aligned w.offset) blocks) := by
  induction blocks generalizing es w with
  | nil =>
    rw [blockEntries, List.append_nil]
    exact hes
  | cons b bs ih =>
    obtain ⟨index, w₁, hb, hrest⟩ := bind_eq_ok h
    obtain ⟨hvalid, hseq⟩ := writeBlock_ok hw hb
    obtain ⟨rfl, hw₁, ho, -⟩ := (emits_writeBlock hvalid hseq).ok_bytes hw rfl hb
    have hall := ih hseq hw₁ hrest
    rw [ho, List.length_append, ← Nat.add_assoc] at hall
    rw [blockEntries, ← List.append_assoc, ← aligned_blockBody hvalid w.offset]
    exact hall

/-! ## The section -/

/-- Where the section starts behind `off`: an empty one does not align. -/
def sectionStart (off : Nat) (blocks : List (List Payload)) : Nat := if blocks = [] then off else aligned off

omit [Zlib] in
theorem rebuildHeaders_ok [Zlib] {blocks : List (List Payload)} (h : ∀ b ∈ blocks, ValidBlock b) :
    rebuildHeaders blocks = .ok () := by
  induction blocks with
  | nil => rfl
  | cons b bs ih =>
    rw [rebuildHeaders, (rebuildHeader_ok_iff b _).mpr ⟨h b (by simp), rfl⟩, ok_bind, ih fun c hc =>
      h c (by simp [hc])]

omit [Zlib] in
theorem blocksBytes_aligned [Zlib] (off : Nat) {blocks : List (List Payload)} (hne : blocks ≠ []) :
    blocksBytes off blocks = alignment off ++ blocksBytes (aligned off) blocks := by
  obtain ⟨b, bs, rfl⟩ := List.exists_cons_of_ne_nil hne
  have hedge := aligned_mod off
  rw [blocksBytes, blocksBytes, alignment_of_edge hedge, aligned_of_edge hedge, List.nil_append]

/-- A section of valid blocks whose entries are a well-formed index is written. -/
theorem emits_write {blocks : List (List Payload)} (h : Packed blocks blocks.flatten) {off : Nat}
    (hseq : IndexSection.Sequence (blockEntries (aligned off) blocks)) :
    Emits (write blocks) off (blocksBytes off blocks)
      (.ofPayloads (blockEntries (aligned off) blocks), sectionStart off blocks) := by
  refine Emits.lift ((validateSection_ok_iff blocks).mpr h) ((emits_checkCursor _ off).then ?_)
  by_cases hne : blocks = []
  · subst hne
    rw [if_pos rfl, sectionStart, if_pos rfl]
    refine .get fun w hw ho => ?_
    rw [ho]
    exact emits_pure _ _
  · have hall := ((validateBlocks_ok_iff none blocks).mp ((validateSection_ok_iff blocks).mpr h)).1
    have hedge := aligned_of_edge (aligned_mod off)
    rw [if_neg hne, sectionStart, if_neg hne, blocksBytes_aligned off hne]
    refine Emits.lift (rebuildHeaders_ok hall) ((emits_align off).bind (.get fun w hw ho => ?_))
    rw [show w.offset = aligned off from ho]
    have hblocks := @emits_writeBlocks _ _ hall [] (aligned off) (by rw [hedge]; exact hseq)
    rw [hedge] at hblocks
    exact hblocks.last (emits_pure _ _)

/-- Only such a section is written. -/
theorem write_ok {blocks : List (List Payload)} {w w' : Writer Status} {r : IndexSection × Nat} (hw : w.Synced)
    (h : write blocks w = (.ok r, w')) :
    Packed blocks blocks.flatten ∧ IndexSection.Sequence (blockEntries (aligned w.offset) blocks) := by
  obtain ⟨_, hvalid, h⟩ := lift_bind_eq_ok h
  refine ⟨(validateSection_ok_iff blocks).mp hvalid, ?_⟩
  obtain ⟨_, w₁, hcheck, h⟩ := bind_eq_ok h
  rw [checkCursor_apply _ hw] at hcheck
  cases hcheck
  by_cases hne : blocks = []
  · subst hne
    exact IndexSection.Sequence.nil
  · rw [if_neg hne] at h
    obtain ⟨_, -, h⟩ := lift_bind_eq_ok h
    obtain ⟨_, w₂, halign, h⟩ := bind_eq_ok h
    obtain ⟨-, hw₂, ho, -⟩ := (emits_align w.offset).ok_bytes hw rfl halign
    rw [bind_ok (get_apply w₂)] at h
    obtain ⟨index, w₃, hblocks, -⟩ := bind_eq_ok h
    have hseq := @writeBlocks_ok _ _ [] _ _ _ IndexSection.Sequence.nil hw₂ hblocks
    rw [show w₂.offset = aligned w.offset from ho, aligned_of_edge (aligned_mod _)] at hseq
    exact hseq

end

/-! ## Four records in two blocks -/

/-- The byte `b`, 2000 times. -/
def longEntry (b : UInt8) : ArenaEntry := ⟨List.replicate 2000 b, by rw [List.length_replicate]; decide⟩

/-- The empty key, and three versions of one key. -/
def fourRecords : List InternalRecord :=
  [⟨.empty, .ofByte 6, .put, 1⟩, ⟨.ofByte 97, longEntry 6, .put, 9⟩, ⟨.ofByte 97, .empty, .tombstone, 8⟩,
    ⟨.ofByte 97, longEntry 7, .put, 7⟩]

/-- The oldest version of the key has no room in the first block. -/
def fourBlocks : List (List Payload) := [(fourRecords.take 3).map .ofRecord, (fourRecords.drop 3).map .ofRecord]

theorem fourBlocks_packed : Packed fourBlocks fourBlocks.flatten :=
  (validateSection_ok_iff _).mp (by decide +kernel)

theorem fourBlocks_sequence : IndexSection.Sequence (blockEntries 4096 fourBlocks) :=
  ((IndexSection.validatePayloadSequence_ok_iff _ 35).mp (by decide +kernel)).1

end DataSection

end Kvdb
