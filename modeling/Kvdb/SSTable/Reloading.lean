import Kvdb.SSTable.TableLoading

/-!
# Loading what was written

Each section that stands in a file as its writer leaves it is accepted by its loader, and
comes back as it was.  `Image` says that of all the sections of a table, one behind the
other; such a file is accepted as that table (`Image.load`).
-/

namespace Kvdb

open Faulty Bytes DataSectionView

/-- A reader of the bytes at a block edge. -/
theorem Decodes.at_edge {α : Type} {r : FileReader α} {d : List UInt8} {a : α} (hr : Decodes BLOCK_SIZE r d a)
    {file : ReadableFile} (hf : file.Sound) {off : Nat} (hedge : off % BLOCK_SIZE = 0) (hlen : d.length ≤ BLOCK_SIZE)
    (hat : At file.bytes off d) : r file off = .ok (a, off + d.length) := by
  refine hr file off hf (.inr ?_) hat
  rw [hedge]
  exact hlen

/-! ## The index -/

namespace IndexSection

theorem spanField_bind {α : Type} {k : List UInt8 → SpanReader α} {bytes d r : List UInt8} {position size : Nat}
    (hsize : d.length = size) (hpos : 0 < size) (h : bytes.drop position = d ++ r) :
    (spanField size >>= k) bytes position = k d bytes (position + d.length) := by
  have hlen := congrArg List.length h
  rw [List.length_drop, List.length_append] at hlen
  have hfield : spanField size bytes position = .ok (d, position + d.length) := by
    unfold spanField
    rw [if_neg (by omega), h, ← hsize, List.take_left]
  exact Reader.bind_ok hfield

/-- The entry at the position. -/
theorem parsePayload_at {bytes r : List UInt8} {position : Nat} {p : Payload}
    (h : bytes.drop position = p.encode ++ r) :
    ∃ parsed keyBytes, parsePayload bytes position = .ok ((parsed, keyBytes), position + p.diskSize) ∧
      parsed.payload bytes = p ∧ keyBytes ≤ p.diskSize := by
  have hlen := congrArg List.length h
  rw [List.length_drop, List.length_append, Payload.length_encode] at hlen
  have hdisk : p.diskSize = 16 + p.firstKey.size + p.lastKey.size := rfl
  have hfixed : Payload.fixedDiskSize = 16 := rfl
  have h0 := h
  unfold Payload.encode at h0
  simp only [List.append_assoc] at h0
  have h1 := drop_field h0
  have h2 := drop_field h1
  have h3 := drop_field h2
  have hlast := drop_field h3
  have hfirstKey : ArenaEntry.ofTake (bytes.drop (position + 8 + 4 + 4)) p.firstKey.size32 = p.firstKey := by
    rw [length_u64Bytes, length_u32Bytes, length_u32Bytes] at h3
    refine ofTake_at ?_
    rw [At, h3]
    exact List.prefix_append _ _
  have hlastKey : ArenaEntry.ofTake (bytes.drop (position + 8 + 4 + 4 + p.firstKey.size)) p.lastKey.size32 =
      p.lastKey := by
    rw [length_u64Bytes, length_u32Bytes, length_u32Bytes] at hlast
    refine ofTake_at ?_
    rw [At, ArenaEntry.size, hlast]
    exact List.prefix_append _ _
  refine ⟨⟨p.dataBlockOffset, p.firstKey.size32, p.lastKey.size32, position + 8 + 4 + 4,
    position + 8 + 4 + 4 + p.firstKey.size⟩, p.firstKey.size + p.lastKey.size, ?_, ?_, by omega⟩
  · have hfirstSize : p.firstKey.size32.toNat = p.firstKey.size := p.firstKey.size32_toNat
    have hlastSize : p.lastKey.size32.toNat = p.lastKey.size := p.lastKey.size32_toNat
    unfold parsePayload
    rw [if_neg (by omega), spanField_bind (length_u64Bytes _) (by omega) h0,
      spanField_bind (length_u32Bytes _) (by omega) h1,
      spanField_bind (length_u32Bytes _) (by omega) h2]
    unfold keySpans
    simp only [length_u64Bytes, length_u32Bytes, u32Of_u32Bytes, u64Of_u64Bytes, hfirstSize, hlastSize]
    rw [if_neg (by omega)]
    congr 2
    omega
  · unfold ParsedPayload.payload
    rw [hfirstKey, hlastKey]

theorem parseLoop_at {bytes : List UInt8} (hbytes : bytes.length < 2 ^ 64) (fuel : Nat) {position total : Nat}
    {parsed : List ParsedPayload} {ps : List Payload} (hfuel : ps.length ≤ fuel)
    (h : bytes.drop position = ps.flatMap Payload.encode) (hposition : position ≤ bytes.length)
      (htotal : total ≤ position) :
    ∃ out sum, parseLoop fuel parsed total bytes position = .ok ((out, sum), bytes.length) ∧
      out.map (ParsedPayload.payload bytes) = parsed.map (ParsedPayload.payload bytes) ++ ps ∧
        sum ≤ bytes.length := by
  induction ps generalizing fuel position total parsed with
  | nil =>
    have hend : position = bytes.length := by
      have hlen := congrArg List.length h
      rw [List.length_drop, List.flatMap_nil, List.length_nil] at hlen
      omega
    subst hend
    refine ⟨parsed, total, ?_, (List.append_nil _).symm, htotal⟩
    cases fuel with
    | zero => rfl
    | succ fuel =>
      unfold parseLoop
      rw [if_neg (Nat.lt_irrefl _)]
  | cons p ps ih =>
    rw [List.flatMap_cons] at h
    have hlen := congrArg List.length h
    rw [List.length_drop, List.length_append, Payload.length_encode] at hlen
    have hdisk : p.diskSize = 16 + p.firstKey.size + p.lastKey.size := rfl
    cases fuel with
    | zero => exact absurd hfuel (by simp)
    | succ fuel =>
      obtain ⟨one, keyBytes, hone, hpayload, hkeys⟩ := parsePayload_at h
      have hrest := drop_field h
      rw [Payload.length_encode] at hrest
      obtain ⟨out, sum, hloop, hout, hsum⟩ := @ih fuel (position + p.diskSize) (total + keyBytes) (parsed ++ [one])
        (by simpa using hfuel) hrest (by omega) (by omega)
      refine ⟨out, sum, ?_, ?_, hsum⟩
      · unfold parseLoop
        rw [if_pos (by omega), hone]
        dsimp only
        rw [checkedAdd_of_lt (by omega)]
        exact hloop
      · rw [hout, List.map_append, List.map_singleton, hpayload, List.append_assoc]
        rfl

/-- The bytes of entries are parsed as these entries. -/
theorem parse_flatMap {ps : List Payload} (hbytes : (ps.flatMap Payload.encode).length < 2 ^ 64) :
    ∃ parsed total, parse (ps.flatMap Payload.encode) = .ok (parsed, total) ∧
      parsed.map (ParsedPayload.payload (ps.flatMap Payload.encode)) = ps ∧
        total ≤ (ps.flatMap Payload.encode).length := by
  have hcount : ps.length ≤ (ps.flatMap Payload.encode).length := by
    clear hbytes
    induction ps with
    | nil => exact Nat.le_refl _
    | cons p ps ih =>
      have hdisk : p.diskSize = 16 + p.firstKey.size + p.lastKey.size := rfl
      rw [List.flatMap_cons, List.length_append, Payload.length_encode, List.length_cons]
      omega
  obtain ⟨out, sum, hloop, hout, hsum⟩ :=
    @parseLoop_at _ hbytes _ 0 0 [] ps hcount rfl (Nat.zero_le _) (Nat.le_refl _)
  refine ⟨out, sum, ?_, hout, hsum⟩
  unfold parse
  rw [hloop]

theorem validateParsedSequence_ok {previous : Option Payload} {ps : List Payload} (hentries : ∀ p ∈ ps, Entry p)
    (hchain : (previous.toList ++ ps).IsChain Next) : validateParsedSequence previous ps = .ok () := by
  induction ps generalizing previous with
  | nil => rfl
  | cons p ps ih =>
    obtain ⟨hafter, hrest⟩ := (isChain_after previous p ps).mp hchain
    have hp := hentries p (by simp)
    unfold validateParsedSequence
    rw [if_neg (not_not.mpr hp.aligned), if_neg (compareKeys_gt_iff'.mpr hp.keys),
      (validateAfter_ok_iff loadedMessages previous p).mpr hafter, ok_bind]
    exact ih (fun q hq => hentries q (by simp [hq])) hrest

theorem Header.decodes {h : Header} (hv : h.validate = .ok ()) : Decodes BLOCK_SIZE Header.load h.encode h := by
  refine BloomSection.fits_of_decodes h.length_encode.ge ?_
  refine (decodes_u8 (by decide) h.type).bind ((decodes_u32 (by decide) h.payloadSize).bind ?_)
  refine (decodes_u32 (by decide) h.crc32).last ?_
  intro file off hf hfit hat
  show (Reader.lift h.validate >>= fun _ => pure h) file off = _
  rw [hv]
  rfl

section

variable [Zlib]

theorem derivedHeader_size {ps : List Payload} (h : (ps.map Payload.diskSize).sum ≤ kPayloadCapacity) :
    (derivedHeader ps).payloadSize.toNat = (ps.map Payload.diskSize).sum := by
  have hcap : kPayloadCapacity = 4087 := rfl
  show (UInt32.ofNat _).toNat = _
  rw [UInt32.toNat_ofNat', Nat.mod_eq_of_lt (by omega)]

omit [Zlib] in
theorem length_flatMap_encode (ps : List Payload) : (ps.flatMap Payload.encode).length =
    (ps.map Payload.diskSize).sum := by
  rw [List.length_flatMap]
  congr 1
  exact List.map_congr_left fun p _ => p.length_encode

/-- The checksum over the fields of the entries is the one over their bytes. -/
theorem crc32_eq [LawfulZlib] {ps : List Payload} (hlen : (ps.flatMap Payload.encode).length < 2 ^ 32 - 1) :
    ps.foldl Payload.appendCrc32 crc32Init = computeCrc32 crc32Init (ps.flatMap Payload.encode) := by
  have hfold : ps.foldl Payload.appendCrc32 crc32Init = (ps.flatMap Payload.fields).foldl computeCrc32 crc32Init := by
    rw [List.foldl_flatMap]
    rfl
  have hbytes : (ps.flatMap Payload.fields).flatten = ps.flatMap Payload.encode := by
    clear hlen hfold
    induction ps with
    | nil => rfl
    | cons p ps ih => rw [List.flatMap_cons, List.flatMap_cons, List.flatten_append, ih, Payload.flatten_fields]
  rw [hfold, foldl_computeCrc32 _ _ (by rw [hbytes]; exact hlen), hbytes]

theorem validate_ofPayloads {ps : List Payload} (h : Sequence ps) : (ofPayloads ps).validate = .ok () := by
  have hsize : (ofPayloads ps).header.payloadSize.toNat = (ps.map Payload.diskSize).sum := derivedHeader_size h.fits
  have hheader : (ofPayloads ps).header.validate = .ok () := derivedHeader_valid h.fits
  unfold validate
  rw [(validatePayloadSequence_ok_iff (ofPayloads ps).payloads (ps.map Payload.diskSize).sum).mpr ⟨h, rfl⟩,
    ok_bind, hheader,
    ok_bind, if_neg (not_not.mpr hsize)]
  exact if_neg (not_not.mpr rfl)

/-- An index that stands at a block edge of a file is read. -/
theorem readSection_at [LawfulZlib] {file : ReadableFile} (hf : file.Sound) {indexOffset : Nat} {ps : List Payload}
    (hseq : Sequence ps) (hedge : indexOffset % BLOCK_SIZE = 0) (hat : At file.bytes indexOffset (encode ps))
    (hsize : file.bytes.length < 2 ^ 64) :
    ∃ totalKeyBytes, readSection file indexOffset 0 false 0 0 =
      .ok (ofPayloads ps, totalKeyBytes, indexOffset + (ofPayloads ps).diskSize) ∧
        totalKeyBytes ≤ kPayloadCapacity := by
  have hcap : kPayloadCapacity = 4087 := rfl
  have hblock : BLOCK_SIZE = 4096 := rfl
  have hheaderSize : Header.diskSize = 9 := rfl
  have hfits := hseq.fits
  have hlenPayload := length_flatMap_encode ps
  have hpayloadSize := derivedHeader_size hfits
  have hend : indexOffset + (encode ps).length ≤ file.bytes.length := by
    refine hat.end_le fun hnil => ?_
    have hlen := congrArg List.length hnil
    rw [length_encode] at hlen
    simp only [List.length_nil] at hlen
    omega
  rw [length_encode] at hend
  have hheader : Header.load file indexOffset = .ok (derivedHeader ps, indexOffset + Header.diskSize) := by
    have h := (Header.decodes (derivedHeader_valid hfits)).at_edge hf hedge
        (by rw [Header.length_encode]; decide) hat.left
    rwa [Header.length_encode] at h
  have hextent : checkExtent file.bytes.length indexOffset 0 (derivedHeader ps) =
      .ok (indexOffset + (Header.diskSize + (ps.map Payload.diskSize).sum)) := by
    unfold checkExtent
    rw [hpayloadSize, checkedAdd_of_lt (by omega)]
    dsimp only
    rw [if_neg (by simp), checkedAdd_of_lt (by omega)]
    dsimp only
    rw [if_neg (by omega), if_neg (by omega)]
  have hpayloadAt : At file.bytes (indexOffset + Header.diskSize) (ps.flatMap Payload.encode) := by
    have h := hat.right
    rwa [Header.length_encode] at h
  have hread : readExactAt (ps.map Payload.diskSize).sum file (indexOffset + Header.diskSize) =
      .ok (ps.flatMap Payload.encode, indexOffset + Header.diskSize + (ps.map Payload.diskSize).sum) := by
    by_cases hnil : ps.flatMap Payload.encode = []
    · rw [← hlenPayload, hnil]
      rfl
    · rw [← hlenPayload]
      exact readExactAt_at hf hnil hpayloadAt
  have hpayload : readPayload (derivedHeader ps) (indexOffset + (Header.diskSize + (ps.map Payload.diskSize).sum))
      (indexOffset + Header.diskSize) file = .ok (ps.flatMap Payload.encode) := by
    have hcrc : computeCrc32 crc32Init (ps.flatMap Payload.encode) = (derivedHeader ps).crc32 :=
      (crc32_eq (by omega)).symm
    unfold readPayload
    rw [hpayloadSize, hread, ok_bind]
    dsimp only
    rw [if_neg (by omega), if_neg (not_not.mpr hcrc)]
    rfl
  obtain ⟨parsed, total, hparse, hmap, htotal⟩ := @parse_flatMap ps (by omega)
  have hvalid : validateParsedSequence none ps = .ok () := validateParsedSequence_ok hseq.entries hseq.chain
  have hmax : sizeMax = 2 ^ 64 - 1 := rfl
  refine ⟨total, ?_, by omega⟩
  unfold readSection
  rw [if_neg (not_not.mpr hedge), hf.getFileSize, ok_bind, if_neg (by omega), hheader, ok_bind]
  dsimp only
  rw [hextent, ok_bind, hpayload, ok_bind, hparse, ok_bind]
  dsimp only
  rw [hmap, hvalid, ok_bind, if_neg (by decide)]
  show (if total > sizeMax then _ else _) = _
  rw [if_neg (by omega)]
  rfl

end

end IndexSection

/-! ## The metadata -/

namespace MetaSection

theorem Header.decodes {h : Header} (hv : h.validate = .ok ()) : Decodes BLOCK_SIZE Header.load h.encode h := by
  refine BloomSection.fits_of_decodes h.length_encode.ge ?_
  refine (decodes_u8 (by decide) h.type).bind ((decodes_u32 (by decide) h.payloadSize).bind ?_)
  refine (decodes_u32 (by decide) h.crc32).last ?_
  intro file off hf hfit hat
  show (Reader.lift h.validate >>= fun _ => pure h) file off = _
  rw [hv]
  rfl

/-- The fixed fields of a payload. -/
def Payload.fixed (p : Payload) : Fixed :=
  ⟨p.recordCount, p.tombstoneCount, p.minSeqNum, p.maxSeqNum, p.minKey.size32, p.maxKey.size32, p.dataBlockCount,
    p.dataBytes⟩

def Fixed.encode (f : Fixed) : List UInt8 :=
  u64Bytes f.recordCount ++ (u64Bytes f.tombstoneCount ++ (u64Bytes f.minSeqNum ++ (u64Bytes f.maxSeqNum ++
    (u32Bytes f.minKeySize ++ (u32Bytes f.maxKeySize ++ (u64Bytes f.dataBlockCount ++ u64Bytes f.dataBytes))))))

theorem Payload.encode_eq (p : Payload) : p.encode = p.fixed.encode ++ (p.minKey.bytes ++ p.maxKey.bytes) := by
  simp only [Payload.encode, Fixed.encode, Payload.fixed, List.append_assoc]

theorem Fixed.length_encode (f : Fixed) : f.encode.length = Payload.fixedDiskSize := by
  simp [Fixed.encode, Payload.fixedDiskSize]

theorem Fixed.decodes (f : Fixed) : Decodes BLOCK_SIZE Fixed.read f.encode f := by
  refine (decodes_u64 (by decide) f.recordCount).bind ((decodes_u64 (by decide) f.tombstoneCount).bind ?_)
  refine (decodes_u64 (by decide) f.minSeqNum).bind ((decodes_u64 (by decide) f.maxSeqNum).bind ?_)
  refine (decodes_u32 (by decide) f.minKeySize).bind ((decodes_u32 (by decide) f.maxKeySize).bind ?_)
  exact (decodes_u64 (by decide) f.dataBlockCount).bind ((decodes_u64 (by decide) f.dataBytes).last (decodes_pure f))

theorem Payload.decodes_keys (p : Payload) :
    Decodes BLOCK_SIZE p.fixed.readKeys (p.minKey.bytes ++ p.maxKey.bytes) p := by
  have hmin : p.fixed.minKeySize.toNat = p.minKey.bytes.length := p.minKey.size32_toNat
  have hmax : p.fixed.maxKeySize.toNat = p.maxKey.bytes.length := p.maxKey.size32_toNat
  have hself : p.fixed.payload p.minKey.bytes p.maxKey.bytes = p := by
    unfold Fixed.payload
    rw [show p.fixed.minKeySize = p.minKey.size32 from rfl, show p.fixed.maxKeySize = p.maxKey.size32 from rfl,
      ofTake_self, ofTake_self]
    rfl
  unfold Fixed.readKeys
  rw [hmin, hmax]
  refine (decodes_bytes (by decide) p.minKey.bytes).bind ((decodes_bytes (by decide) p.maxKey.bytes).last ?_)
  rw [hself]
  exact decodes_pure p

section

variable [Zlib]

theorem validate_ofPayload {p : Payload} {index : IndexSection} (hv : p.validate = .ok ())
    (hindex : validateIndexConsistency p index = .ok ()) : (ofPayload p).validate index = .ok () := by
  have hsize : (ofPayload p).header.payloadSize.toNat = (ofPayload p).payload.diskSize := derivedHeader_size hv
  have hcrc : (ofPayload p).payload.calculateCrc32 = (ofPayload p).header.crc32 := rfl
  have hheader : (ofPayload p).header.validate = .ok () := derivedHeader_valid hv
  have hpayload : (ofPayload p).payload.validate = .ok () := hv
  unfold validate
  rw [hheader, ok_bind, hpayload, ok_bind, if_neg (not_not.mpr hsize), if_neg (not_not.mpr hcrc)]
  exact hindex

/-- A payload behind its header is read. -/
theorem Payload.yields_load {p : Payload} (hv : p.validate = .ok ()) {file : ReadableFile} (hf : file.Sound) {off : Nat}
    (hfit : p.diskSize ≤ BLOCK_SIZE - off % BLOCK_SIZE) (hat : At file.bytes off p.encode) :
    LoadM.Yields (Payload.load file (derivedHeader p)) off p (off + p.diskSize) := by
  have hsize := derivedHeader_size hv
  have hcap := Payload.validate_size hv
  have hdisk : p.diskSize = Payload.fixedDiskSize + p.minKey.size + p.maxKey.size := rfl
  have hfixedSize : Payload.fixedDiskSize = 56 := rfl
  have hblock : BLOCK_SIZE = 4096 := rfl
  have hminSize : p.fixed.minKeySize.toNat = p.minKey.size := p.minKey.size32_toNat
  have hmaxSize : p.fixed.maxKeySize.toNat = p.maxKey.size := p.maxKey.size32_toNat
  have hfits : fitsRead (derivedHeader p).payloadSize.toNat file off = .ok ((), off) := by
    have hok : fitsInBlock off p.diskSize BLOCK_SIZE = .ok () := by
      unfold fitsInBlock
      rw [if_neg (by decide), if_neg (by omega), if_pos hfit]
    unfold fitsRead
    rw [hsize, Reader.offset_bind, hok]
    rfl
  have hsplit := p.encode_eq
  rw [hsplit] at hat
  have hfixed : Fixed.read file off = .ok (p.fixed, off + Payload.fixedDiskSize) := by
    have h := p.fixed.decodes file off hf (.inr (by rw [Fixed.length_encode]; omega)) hat.left
    rwa [Fixed.length_encode] at h
  have hkeys : p.fixed.readKeys file (off + Payload.fixedDiskSize) = .ok (p, off + p.diskSize) := by
    have hright := hat.right
    rw [Fixed.length_encode] at hright
    have hlen : (p.minKey.bytes ++ p.maxKey.bytes).length = p.minKey.size + p.maxKey.size := List.length_append
    have hroom : p.minKey.bytes ++ p.maxKey.bytes = [] ∨
        (p.minKey.bytes ++ p.maxKey.bytes).length ≤ BLOCK_SIZE - (off + Payload.fixedDiskSize) % BLOCK_SIZE := by
      by_cases hnil : p.minKey.bytes ++ p.maxKey.bytes = []
      · exact .inl hnil
      · have hpos := List.length_pos_of_ne_nil hnil
        refine .inr ?_
        rw [hlen] at hpos ⊢
        exact fits_part hfit (by omega) (by omega)
    have h := p.decodes_keys file _ hf hroom hright
    rw [h, hlen]
    congr 2
    omega
  have hsizes : p.fixed.checkSizes (derivedHeader p) = .ok () := by
    have hmax : sizeMax = 2 ^ 64 - 1 := rfl
    unfold Fixed.checkSizes
    rw [hsize, hminSize, hmaxSize, if_neg (by omega), if_neg (by omega)]
  have hrest : LoadM.Yields (do
      let result ← LoadM.read file p.fixed.readKeys
      LoadM.ensure (result.calculateCrc32 == (derivedHeader p).crc32) ⟨.checksumMismatch,
        "meta payload CRC mismatch"⟩
      LoadM.check result.validate
      pure result : LoadM Payload) (off + Payload.fixedDiskSize) p (off + p.diskSize) := by
    refine (LoadM.yields_read hkeys).bind ?_
    refine (LoadM.yields_ensure (beq_self_eq_true _) _ _).bind ?_
    exact (LoadM.yields_check hv _).bind (LoadM.yields_pure p _)
  refine LoadM.Yields.rollingBack ?_
  refine (LoadM.yields_check (derivedHeader_valid hv) _).bind ((LoadM.yields_read hfits).bind ?_)
  refine (LoadM.yields_read hfixed).bind ((LoadM.yields_check hsizes _).bind ?_)
  split
  · exact LoadM.yields_alloc_bind _ fun _ => hrest
  · exact hrest

/-- Metadata that stand at a block edge of a file are read. -/
theorem yields_load {p : Payload} {index : IndexSection} (hv : p.validate = .ok ())
    (hindex : validateIndexConsistency p index = .ok ()) {file : ReadableFile} (hf : file.Sound) {metaOffset : Nat}
    (hedge : metaOffset % BLOCK_SIZE = 0) (hat : At file.bytes metaOffset (encode p)) (off : Nat) :
    LoadM.Yields (load file index metaOffset) off (ofPayload p) (metaOffset + (ofPayload p).diskSize) := by
  have hcap := Payload.validate_size hv
  have hblock : BLOCK_SIZE = 4096 := rfl
  have hheaderSize : Header.diskSize = 9 := rfl
  have hheader : Header.load file metaOffset = .ok (derivedHeader p, metaOffset + Header.diskSize) := by
    have h := (Header.decodes (derivedHeader_valid hv)).at_edge hf hedge (by rw [Header.length_encode]; decide) hat.left
    rwa [Header.length_encode] at h
  have hpayloadAt : At file.bytes (metaOffset + Header.diskSize) p.encode := by
    have h := hat.right
    rwa [Header.length_encode] at h
  have hroom : p.diskSize ≤ BLOCK_SIZE - (metaOffset + Header.diskSize) % BLOCK_SIZE := by
    have hmod : (metaOffset + Header.diskSize) % BLOCK_SIZE = Header.diskSize := by
      rw [Nat.add_mod, hedge, Nat.zero_add, Nat.mod_mod]
      rfl
    rw [hmod]
    exact hcap
  have hpayload := Payload.yields_load hv hf hroom hpayloadAt
  have hend : metaOffset + (ofPayload p).diskSize = metaOffset + Header.diskSize + p.diskSize :=
    (Nat.add_assoc _ _ _).symm
  rw [hend]
  refine LoadM.Yields.rollingBack ?_
  refine (LoadM.yields_ensure (beq_iff_eq.mpr hedge) _ _).bind ((LoadM.yields_setOffset _ _).bind ?_)
  refine (LoadM.yields_read hheader).bind (hpayload.bind ?_)
  exact (LoadM.yields_check (validate_ofPayload hv hindex) _).bind (LoadM.yields_pure _ _)

end

end MetaSection

/-! ## The header and the footer -/

section

variable [Zlib] {file : ReadableFile}

omit [Zlib] in
theorem at_u32 {b d : List UInt8} {off : Nat} {x : UInt32} (h : At b off (u32Bytes x ++ d)) : At b (off + 4) d := by
  have hright := h.right
  rwa [length_u32Bytes] at hright

omit [Zlib] in
/-- A field of a section, in front of the rest of it. -/
theorem readU32Le_bind {α : Type} {k : UInt32 → FileReader α} (hf : file.Sound) {off : Nat} {x : UInt32}
    {d : List UInt8}
    (hfit : 4 ≤ BLOCK_SIZE - off % BLOCK_SIZE) (hat : At file.bytes off (u32Bytes x ++ d)) :
    (readU32Le BLOCK_SIZE >>= k) file off = k x file (off + 4) := by
  have hfour : 4 ≤ BLOCK_SIZE := by decide
  have hread := decodes_u32 hfour x file off hf (.inr (by rwa [length_u32Bytes])) hat.left
  rw [length_u32Bytes] at hread
  exact Reader.bind_ok hread

/-- A header at the start of the file. -/
theorem FileHeaderSection.load_at {h : FileHeaderSection} (hf : file.Sound) (hv : h.validateFields = .ok ())
    (hcrc : h.calculateCrc32 = h.crc32) (hat : At file.bytes 0 h.encode) : load file 0 = .ok (h, diskSize) := by
  have hmagic : h.magic = FILE_HEADER_MAGIC := by
    unfold validateFields at hv
    split at hv
    · cases hv
    next hm => exact not_not.mp hm
  have halign : alignRead file 0 = .ok ((), 0) := by
    unfold alignRead
    rw [aligned_of_edge (Nat.zero_mod _)]
  have hfit : ∀ k, k ≤ 20 → 4 ≤ BLOCK_SIZE - (0 + k) % BLOCK_SIZE := by
    intro k hk
    have hb : BLOCK_SIZE = 4096 := rfl
    rw [hb]
    omega
  unfold load
  rw [Reader.bind_ok halign, Reader.offset_bind]
  have h0 : At file.bytes 0 (u32Bytes h.magic ++ (u32Bytes h.version ++ (u32Bytes h.flags ++ (u32Bytes h.blockSize ++
      (u32Bytes h.tableId ++ (u32Bytes h.crc32 ++ [])))))) := by
    rw [List.append_nil]
    exact hat
  have h1 := at_u32 h0
  have h2 := at_u32 h1
  have h3 := at_u32 h2
  have h4 := at_u32 h3
  have h5 := at_u32 h4
  rw [readU32Le_bind hf (hfit 0 (by omega)) h0, readU32Le_bind hf (hfit 4 (by omega)) h1,
    readU32Le_bind hf (hfit 8 (by omega)) h2, readU32Le_bind hf (hfit 12 (by omega)) h3,
    readU32Le_bind hf (hfit 16 (by omega)) h4, readU32Le_bind hf (hfit 20 (by omega)) h5, Reader.offset_bind]
  dsimp only
  rw [Reader.ensure_bind (by decide), Reader.ensure_bind (beq_iff_eq.mpr hmagic),
    Reader.ensure_bind (beq_iff_eq.mpr hcrc),
    hv]
  rfl

omit [Zlib] in
theorem FileFooterSection.readFields_decodes (f : FileFooterSection) : Decodes BLOCK_SIZE readFields f.encode f := by
  refine (decodes_u32 (by decide) f.magic).bind ((decodes_u32 (by decide) f.version).bind ?_)
  refine (decodes_u32 (by decide) f.reserved).bind ((decodes_u64 (by decide) f.dataOffset).bind ?_)
  refine (decodes_u64 (by decide) f.dataBlockCount).bind ((decodes_u64 (by decide) f.indexOffset).bind ?_)
  refine (decodes_u32 (by decide) f.indexSize).bind ((decodes_u64 (by decide) f.bloomOffset).bind ?_)
  refine (decodes_u32 (by decide) f.bloomSize).bind ((decodes_u64 (by decide) f.metaOffset).bind ?_)
  refine (decodes_u32 (by decide) f.metaSize).bind ((decodes_u64 (by decide) f.fileSize).bind ?_)
  exact (decodes_u32 (by decide) f.footerCrc32).last (decodes_pure f)

/-- A sealed footer at the end of the file that it describes. -/
theorem FileFooterSection.load_at {f : FileFooterSection} (hf : file.Sound) {footerOffset : Nat}
    (hsize : file.bytes.length = footerOffset + diskSize) (hsealed : f.sealed footerOffset = f)
    (hlayout : f.Layout footerOffset) (hat : At file.bytes footerOffset f.encode) (offset : Nat) :
    load diskSize file offset = .ok (f, footerOffset + diskSize) := by
  have hdisk : diskSize = 76 := rfl
  have hfile := hlayout.size
  have hlt := f.fileSize.toNat_lt
  have hlocate : locate diskSize file.bytes.length offset = .ok footerOffset := by
    unfold locate
    rw [if_neg (by omega), if_neg (by omega), hsize, Nat.add_sub_cancel]
  have hplace : checkPlace footerOffset file.bytes.length = .ok () := by
    have hrange : canReadRange footerOffset diskSize file.bytes.length = .ok () := by
      unfold canReadRange
      rw [if_neg (by omega), if_neg (by omega)]
    unfold checkPlace
    rw [if_neg (by rw [isBlockAligned_iff.mpr hlayout.footer]; decide), hrange]
    dsimp only
    rw [if_neg (not_not.mpr hsize.symm)]
    unfold fitsInBlock
    rw [hlayout.footer, if_neg (by decide), if_neg (by omega), if_pos (by decide)]
  have hfields : readFields file footerOffset = .ok (f, footerOffset + diskSize) := by
    have h := f.readFields_decodes.at_edge hf hlayout.footer (by rw [length_encode]; decide) hat
    rwa [length_encode] at h
  have hcrc : f.calculateCrc32 = f.footerCrc32 := by
    rw [← hsealed]
    rfl
  have hvalid : f.validate footerOffset file.bytes.length = .ok () := by
    have h := @validate_sealed _ f footerOffset (by omega) (hsealed.symm ▸ hlayout)
    rwa [hsealed, hfile, ← hsize] at h
  unfold load
  rw [hf.getFileSize, ok_bind, if_neg (by omega), hlocate, ok_bind, hplace, ok_bind, hfields, ok_bind]
  dsimp only
  rw [if_neg (not_not.mpr hcrc), hvalid, ok_bind]
  rfl

end

/-! ## The data blocks -/

namespace DataSectionView

variable {file : ReadableFile} {first : Nat} {blocks : List DataBlock}

/-- The blocks stand in the file one behind the other, and none has been looked into. -/
def Standing (file : ReadableFile) : Nat → List DataBlock → Prop
  | _, [] => True
  | first, b :: bs =>
    Discovered file first b.headerView ∧ b = { headerView := b.headerView } ∧ Standing file (first + BLOCK_SIZE) bs

theorem loadBlocks_standing (hf : file.Sound) {computedSectionEnd : Nat} (h : Standing file first blocks)
    (hend : first + blocks.length * BLOCK_SIZE ≤ computedSectionEnd) :
    loadBlocks computedSectionEnd blocks.length file first = .ok (blocks, first + blocks.length * BLOCK_SIZE) := by
  induction blocks generalizing first with
  | nil => rfl
  | cons b bs ih =>
    obtain ⟨hd, hfresh, hrest⟩ := h
    rw [List.length_cons, Nat.succ_mul] at hend ⊢
    have hblock := load_of_discovered hf hd (show first + BLOCK_SIZE ≤ computedSectionEnd by omega)
    rw [← hfresh] at hblock
    show (DataBlock.load computedSectionEnd >>= fun block => loadBlocks computedSectionEnd bs.length >>= fun blocks =>
      pure (block :: blocks)) file first = _
    rw [Reader.bind_ok hblock, Reader.bind_ok (ih hrest (by omega))]
    show Except.ok (b :: bs, _) = _
    congr 2
    omega

/-- Blocks that end at the next section. -/
theorem load_standing (hf : file.Sound) (h : Standing file first blocks) {next : Nat} (hnext : 0 < next)
    (hfile : next ≤ file.bytes.length) (hlt : next < 2 ^ 64) (hnextEdge : next % BLOCK_SIZE = 0)
    (hdata : blocks ≠ [] → first % BLOCK_SIZE = 0 ∧ first + blocks.length * BLOCK_SIZE = next)
    (hempty : blocks = [] → first ≤ next) (offset : Nat) :
    ∃ cursor, load first blocks.length next file offset = .ok (⟨first, next, blocks⟩, cursor) := by
  have hpos : 0 < BLOCK_SIZE := by decide
  have hle : first + blocks.length * BLOCK_SIZE ≤ next := by
    by_cases hnil : blocks = []
    · rw [hnil, List.length_nil, Nat.zero_mul]
      exact hempty hnil
    · exact (hdata hnil).2.le
  have hmul : checkedMul blocks.length BLOCK_SIZE = some (blocks.length * BLOCK_SIZE) := by
    unfold checkedMul
    refine if_neg ?_
    rintro ⟨hne, hgt⟩
    have hdiv : BLOCK_SIZE ≤ (2 ^ 64 - 1) / blocks.length :=
      (Nat.le_div_iff_mul_le (by omega)).mpr (by rw [Nat.mul_comm]; omega)
    omega
  have hcount : blocks.length = 0 ↔ blocks = [] := List.length_eq_zero_iff
  have htrusted : checkTrustedEnd file.bytes.length first blocks.length (first + blocks.length * BLOCK_SIZE) next =
      .ok () := by
    unfold checkTrustedEnd
    rw [if_neg (by omega), if_neg (by omega)]
    by_cases hnil : blocks = []
    · have h0 := hcount.mpr hnil
      have hfirst := hempty hnil
      rw [if_neg (by omega), if_neg (by omega)]
    · have h0 : blocks.length ≠ 0 := fun h => hnil (hcount.mp h)
      have hend := (hdata hnil).2
      rw [if_neg (by omega), if_neg (by omega)]
  have hextent : checkExtent file.bytes.length first blocks.length next = .ok (first + blocks.length * BLOCK_SIZE) := by
    have hedge : ¬ (blocks.length > 0 ∧ first % BLOCK_SIZE ≠ 0) := by
      rintro ⟨hcountPos, hne⟩
      exact hne (hdata fun hnil => by rw [hcount.mpr hnil] at hcountPos; omega).1
    unfold checkExtent
    rw [if_neg (by omega), if_neg hedge, hmul, Option.bind_some, checkedAdd_of_lt (by omega)]
    dsimp only
    rw [if_neg (by omega), htrusted, ok_bind]
    rfl
  have hsection : (if blocks.length = 0 ∧ next ≠ 0 then next else first + blocks.length * BLOCK_SIZE) = next := by
    by_cases hnil : blocks = []
    · rw [if_pos ⟨hcount.mpr hnil, by omega⟩]
    · rw [if_neg (fun h => hnil (hcount.mp h.1))]
      exact (hdata hnil).2
  refine ⟨if blocks.length = 0 then first else first + blocks.length * BLOCK_SIZE, ?_⟩
  unfold load
  rw [hf.getFileSize, ok_bind, hextent, ok_bind, loadBlocks_standing hf h (Nat.le_refl _), ok_bind]
  dsimp only
  rw [if_neg (not_not.mpr rfl), hsection]
  rfl

end DataSectionView

/-! ## The table -/

namespace SSTable

/-- The sections of a table as they stand in a file, with the footer at `footerOffset`. -/
structure Image [Zlib] (file : ReadableFile) (t : LoadedTable) (footerOffset : Nat) : Prop where
  size : file.bytes.length = footerOffset + FileFooterSection.diskSize
  headerAt : At file.bytes 0 t.fileHeaderSection.encode
  headerFields : t.fileHeaderSection.validateFields = .ok ()
  headerCrc : t.fileHeaderSection.calculateCrc32 = t.fileHeaderSection.crc32
  footerAt : At file.bytes footerOffset t.fileFooterSection.encode
  footerSealed : t.fileFooterSection.sealed footerOffset = t.fileFooterSection
  layout : t.fileFooterSection.Layout footerOffset
  dataStart : FileHeaderSection.diskSize ≤ t.fileFooterSection.dataOffset.toNat
  view : t.dataSectionView =
    ⟨t.fileFooterSection.dataOffset.toNat, t.fileFooterSection.indexOffset.toNat, t.dataSectionView.dataBlocks⟩
  count : t.dataSectionView.dataBlocks.length = t.fileFooterSection.dataBlockCount.toNat
  blocks : DataSectionView.Standing file t.fileFooterSection.dataOffset.toNat t.dataSectionView.dataBlocks
  index : t.indexSection = .ofPayloads t.indexSection.payloads
  sequence : IndexSection.Sequence t.indexSection.payloads
  indexAt : At file.bytes t.fileFooterSection.indexOffset.toNat (IndexSection.encode t.indexSection.payloads)
  indexSize : t.fileFooterSection.indexSize.toNat = t.indexSection.diskSize
  bloom : t.bloomSection = .ofPayload t.bloomSection.payload
  bloomValid : t.bloomSection.payload.validate = .ok ()
  bloomAt : At file.bytes t.fileFooterSection.bloomOffset.toNat t.bloomSection.encode
  metadata : t.metaSection = .ofPayload t.metaSection.payload
  metaValid : t.metaSection.payload.validate = .ok ()
  metaAt : At file.bytes t.fileFooterSection.metaOffset.toNat (MetaSection.encode t.metaSection.payload)
  metaSize : t.fileFooterSection.metaSize.toNat = t.metaSection.diskSize
  consistent : MetaSection.validateIndexConsistency t.metaSection.payload t.indexSection = .ok ()

variable [Zlib] {file : ReadableFile} {t : LoadedTable} {footerOffset : Nat}

/-- Every end of a section that the footer describes is a number of 64 bits. -/
theorem Image.lt (h : Image file t footerOffset) : footerOffset + FileFooterSection.diskSize < 2 ^ 64 := by
  have hlt := t.fileFooterSection.fileSize.toNat_lt
  rw [h.layout.size] at hlt
  exact hlt

omit [Zlib] in
theorem rangeFits_of_le {offset size limit : Nat} (h : offset + size ≤ limit) :
    rangeFits offset size limit = true := by
  unfold rangeFits
  rw [Bool.and_eq_true, decide_eq_true_eq, decide_eq_true_eq]
  omega

theorem Image.checkSections (h : Image file t footerOffset) :
    checkSections FileHeaderSection.diskSize (footerOffset + FileFooterSection.diskSize) t.fileFooterSection =
      .ok () := by
  have hl := h.layout
  have hlt := h.lt
  have hstart := h.dataStart
  have hindexEnd := hl.indexEnd
  have hbloomEnd := hl.bloomEnd
  have hmetaEnd := hl.metaEnd
  have hb : BLOCK_SIZE = 4096 := rfl
  have hdata : t.fileFooterSection.dataOffset.toNat + t.fileFooterSection.dataBlockCount.toNat * BLOCK_SIZE ≤
      t.fileFooterSection.indexOffset.toNat := by
    by_cases h0 : t.fileFooterSection.dataBlockCount = 0
    · rw [h0]
      exact hl.empty h0
    · exact (hl.data h0).2.le
  have hmul : (t.fileFooterSection.dataBlockCount * UInt64.ofNat BLOCK_SIZE).toNat =
      t.fileFooterSection.dataBlockCount.toNat * BLOCK_SIZE := by
    rw [UInt64.toNat_mul]
    show t.fileFooterSection.dataBlockCount.toNat * BLOCK_SIZE % 2 ^ 64 = _
    exact Nat.mod_eq_of_lt (by omega)
  have hcount : t.fileFooterSection.dataBlockCount.toNat ≤ (2 ^ 64 - 1) / BLOCK_SIZE :=
    (Nat.le_div_iff_mul_le (by decide)).mpr (by omega)
  unfold SSTable.checkSections
  rw [if_neg (by omega), if_neg (by omega)]
  dsimp only
  rw [hmul, rangeFits_of_le hdata, rangeFits_of_le hindexEnd, rangeFits_of_le hbloomEnd, rangeFits_of_le (by omega)]
  rfl

theorem Image.declaredEnds (h : Image file t footerOffset) : declaredEnds t.fileFooterSection =
    .ok (t.fileFooterSection.indexOffset.toNat + t.fileFooterSection.indexSize.toNat,
      t.fileFooterSection.bloomOffset.toNat + t.fileFooterSection.bloomSize.toNat,
      t.fileFooterSection.metaOffset.toNat + t.fileFooterSection.metaSize.toNat) := by
  have hlt := h.lt
  have hindexEnd := h.layout.indexEnd
  have hbloomEnd := h.layout.bloomEnd
  have hmetaEnd := h.layout.metaEnd
  unfold SSTable.declaredEnds
  rw [DataSectionView.checkedAdd_of_lt (by omega), DataSectionView.checkedAdd_of_lt (by omega),
    DataSectionView.checkedAdd_of_lt (by omega)]

theorem Image.view_load (hf : file.Sound) (h : Image file t footerOffset) :
    ∃ cursor, DataSectionView.load t.fileFooterSection.dataOffset.toNat t.fileFooterSection.dataBlockCount.toNat
      t.fileFooterSection.indexOffset.toNat file t.fileFooterSection.dataOffset.toNat =
        .ok (t.dataSectionView, cursor) := by
  have hlt := h.lt
  have hsize := h.size
  have hindexEnd := h.layout.indexEnd
  have hbloomEnd := h.layout.bloomEnd
  have hmetaEnd := h.layout.metaEnd
  have hstart := h.dataStart
  have hheader : FileHeaderSection.diskSize = 24 := rfl
  have hzero : t.dataSectionView.dataBlocks = [] ↔ t.fileFooterSection.dataBlockCount = 0 := by
    rw [← List.length_eq_zero_iff, h.count, ← UInt64.toNat_inj]
    rfl
  have hle : t.fileFooterSection.dataOffset.toNat ≤ t.fileFooterSection.indexOffset.toNat := by
    by_cases h0 : t.fileFooterSection.dataBlockCount = 0
    · exact h.layout.empty h0
    · have hend := (h.layout.data h0).2
      omega
  have hload := DataSectionView.load_standing hf h.blocks (show 0 < t.fileFooterSection.indexOffset.toNat by omega)
    (by omega) (by omega) h.layout.index
    (fun hne => by
      rw [h.count]
      exact h.layout.data fun h0 => hne (hzero.mpr h0))
    (fun hnil => h.layout.empty (hzero.mp hnil)) t.fileFooterSection.dataOffset.toNat
  rw [h.count, ← h.view] at hload
  exact hload

theorem Image.index_load [LawfulZlib] (hf : file.Sound) (h : Image file t footerOffset) (off : Nat) :
    LoadM.Yields (IndexSection.load file t.fileFooterSection.indexOffset.toNat 0) off t.indexSection
      (t.fileFooterSection.indexOffset.toNat + t.fileFooterSection.indexSize.toNat) := by
  have hlt := h.lt
  have hsize := h.size
  obtain ⟨totalKeyBytes, hread, -⟩ := IndexSection.readSection_at hf h.sequence h.layout.index h.indexAt (by omega)
  rw [← h.index, ← h.indexSize] at hread
  have hvalid := IndexSection.validate_ofPayloads h.sequence
  rw [← h.index] at hvalid
  have hrest : LoadM.Yields (do
      LoadM.check t.indexSection.validate
      LoadM.setOffset (t.fileFooterSection.indexOffset.toNat + t.fileFooterSection.indexSize.toNat)
      pure t.indexSection : LoadM IndexSection) off t.indexSection
        (t.fileFooterSection.indexOffset.toNat + t.fileFooterSection.indexSize.toNat) :=
    (LoadM.yields_check hvalid _).bind ((LoadM.yields_setOffset _ _).bind (LoadM.yields_pure _ _))
  refine LoadM.Yields.rollingBack ((LoadM.yields_check hread _).bind ?_)
  dsimp only
  split
  · exact LoadM.yields_alloc_bind _ fun _ => hrest
  · exact hrest

theorem Image.bloom_load (hf : file.Sound) (h : Image file t footerOffset) (off : Nat) :
    BloomSection.load t.fileFooterSection.bloomOffset.toNat file off =
      .ok (t.bloomSection, t.fileFooterSection.bloomOffset.toNat + t.fileFooterSection.bloomSize.toNat) := by
  have hle : t.fileFooterSection.bloomOffset.toNat ≤ file.bytes.length := by
    have hsize := h.size
    have hbloomEnd := h.layout.bloomEnd
    have hmetaEnd := h.layout.metaEnd
    omega
  have hat := h.bloomAt
  rw [h.bloom] at hat
  obtain ⟨rest, hrest⟩ := hat
  have htake : t.fileFooterSection.bloomOffset.toNat =
      (file.bytes.take t.fileFooterSection.bloomOffset.toNat).length := by
    rw [List.length_take, Nat.min_eq_left hle]
  have hbytes : file.bytes = file.bytes.take t.fileFooterSection.bloomOffset.toNat ++
      (BloomSection.encode (.ofPayload t.bloomSection.payload) ++ rest) := by
    rw [hrest, List.take_append_drop]
  have hload := BloomSection.load_encode h.bloomValid hf h.layout.bloom htake hbytes off
  rw [← h.bloom] at hload
  rw [hload, h.layout.bloomSize]
  rfl

theorem Image.meta_load (hf : file.Sound) (h : Image file t footerOffset) (off : Nat) :
    LoadM.Yields (MetaSection.load file t.indexSection t.fileFooterSection.metaOffset.toNat) off t.metaSection
      (t.fileFooterSection.metaOffset.toNat + t.fileFooterSection.metaSize.toNat) := by
  have hload := MetaSection.yields_load h.metaValid h.consistent hf h.layout.metadata h.metaAt off
  rw [← h.metadata, ← h.metaSize] at hload
  exact hload

/-- **Accepted images.**  A file with these sections is loaded as the table, whatever the arena holds. -/
theorem Image.load [LawfulZlib] (hf : file.Sound) (h : Image file t footerOffset) {path : List UInt8}
    (hpath : path ≠ [])
    (off : Nat) : LoadM.Yields (SSTable.load path (.ok file)) off t off := by
  have hheader := FileHeaderSection.load_at hf h.headerFields h.headerCrc h.headerAt
  have hfooter := FileFooterSection.load_at hf h.size h.footerSealed h.layout h.footerAt 0
  obtain ⟨viewCursor, hview⟩ := h.view_load hf
  have hend : t.dataSectionView.sectionEndOffset = t.fileFooterSection.indexOffset.toNat := by rw [h.view]
  have hsections : LoadM.Yields (loadSections file) off t off := by
    refine (LoadM.yields_check hheader _).bind ((LoadM.yields_check hfooter _).bind ?_)
    refine (LoadM.yields_check h.checkSections _).bind ((LoadM.yields_check hview _).bind ?_)
    refine (LoadM.yields_ensure (beq_iff_eq.mpr hend) _ _).bind ((LoadM.yields_check h.declaredEnds _).bind ?_)
    refine ((h.index_load hf _).withCursor _).bind ((LoadM.yields_ensure (beq_self_eq_true _) _ _).bind ?_)
    refine (LoadM.yields_check (h.bloom_load hf _) _).bind ((LoadM.yields_ensure (beq_self_eq_true _) _ _).bind ?_)
    refine ((h.meta_load hf _).withCursor _).bind ((LoadM.yields_ensure (beq_self_eq_true _) _ _).bind ?_)
    exact LoadM.yields_pure t off
  unfold SSTable.load
  rw [if_neg hpath]
  exact LoadM.Yields.rollingBack ((LoadM.yields_check rfl _).bind hsections)

end SSTable

end Kvdb
