import Kvdb.SSTable.FileLayout

/-!
# The index against the footer

`SSTable::load` reads the index with the loader that does not compare it with the footer
(`IndexSection::load`), not with the strict one (`loadStrict`).  What is compared is the
metadata with the index, and the data blocks with the footer.  So the index of a loaded
table may have another number of entries than the table has data blocks, and its entries
may begin at another block.

Both numbers stand in the file twice.  An accepted table's index describes its data
blocks exactly when the two copies are the same (`index_matches_iff`).
-/

namespace Kvdb

open Faulty Bytes

/-- The index of a loaded table describes the data blocks of its footer. -/
structure LoadedTable.IndexMatches (t : LoadedTable) : Prop where
  count : t.indexSection.payloads.length = t.fileFooterSection.dataBlockCount.toNat
  offsets : ∀ (i : Nat) (p : IndexSection.Payload), t.indexSection.payloads[i]? = some p →
    p.dataBlockOffset.toNat = t.fileFooterSection.dataOffset.toNat + i * BLOCK_SIZE
  candidates : ∀ (key : ArenaEntry) (i : Nat), t.indexSection.findFirstCandidate key = .ok i →
    ∃ b p, t.dataSectionView.dataBlocks[i]? = some b ∧ t.indexSection.payloads[i]? = some p ∧
      b.headerView.headerOffset = p.dataBlockOffset.toNat

/-- In the file the block count of the metadata is that of the footer, and where blocks are counted the entries of the
index begin with the data offset of the footer. -/
def SSTable.IndexAgrees [Zlib] (file : ReadableFile) : Prop :=
  ∃ footer cursor, FileFooterSection.load FileFooterSection.diskSize file 0 = .ok (footer, cursor) ∧
    At file.bytes (footer.metaOffset.toNat + 49) (u64Bytes footer.dataBlockCount) ∧
    (footer.dataBlockCount ≠ 0 → At file.bytes (footer.indexOffset.toNat + 9) (u64Bytes footer.dataOffset))

/-- Two numbers that stand at the same place are the same. -/
theorem u64_unique {bytes : List UInt8} {off : Nat} {a b : UInt64} (ha : At bytes off (u64Bytes a))
    (hb : At bytes off (u64Bytes b)) : a = b := by
  have hsame : u64Bytes a = u64Bytes b := by
    have hlen : (u64Bytes a).length = (u64Bytes b).length := by rw [length_u64Bytes, length_u64Bytes]
    exact (List.prefix_of_prefix_length_le ha hb hlen.le).eq_of_length hlen
  rw [← u64Of_u64Bytes a, hsame, u64Of_u64Bytes]

/-! ## The first entry -/

namespace IndexSection

theorem spanField_ok {bytes d : List UInt8} {position next size : Nat}
    (h : spanField size bytes position = .ok (d, next)) :
    d = (bytes.drop position).take size ∧ size ≤ bytes.length - position := by
  unfold spanField at h
  split at h
  · cases h
  · cases h
    exact ⟨rfl, by omega⟩

/-- An entry begins with the offset of its block. -/
theorem parsePayload_offset {bytes : List UInt8} {q : ParsedPayload} {keyBytes next : Nat}
    (h : parsePayload bytes 0 = .ok ((q, keyBytes), next)) :
    8 ≤ bytes.length ∧ q.dataBlockOffset = u64Of (bytes.take 8) := by
  unfold parsePayload at h
  split at h
  · cases h
  obtain ⟨offset, p₁, hoffset, h⟩ := Reader.bind_eq_ok h
  obtain ⟨firstKeySize, p₂, -, h⟩ := Reader.bind_eq_ok h
  obtain ⟨lastKeySize, p₃, -, h⟩ := Reader.bind_eq_ok h
  obtain ⟨rfl, hlen⟩ := spanField_ok hoffset
  unfold keySpans at h
  dsimp only at h
  split at h
  · cases h
  · cases h
    exact ⟨hlen, rfl⟩

/-- The loop keeps the entries it was called with in front. -/
theorem parseLoop_prefix {fuel : Nat} {parsed out : List ParsedPayload} {total sum position next : Nat}
    {bytes : List UInt8} (h : parseLoop fuel parsed total bytes position = .ok ((out, sum), next)) :
      parsed <+: out := by
  induction fuel generalizing parsed total position with
  | zero =>
    cases h
    exact List.prefix_refl _
  | succ fuel ih =>
    unfold parseLoop at h
    split at h
    · split at h
      · cases h
      split at h
      · cases h
      · exact (List.prefix_append _ _).trans (ih h)
    · cases h
      exact List.prefix_refl _

/-- The first entry of an encoded payload begins with the offset of its block. -/
theorem parse_first {encoded : List UInt8} {q : ParsedPayload} {qs : List ParsedPayload} {total : Nat}
    (h : parse encoded = .ok (q :: qs, total)) : 8 ≤ encoded.length ∧
      q.dataBlockOffset = u64Of (encoded.take 8) := by
  unfold parse at h
  split at h
  · cases h
  next r next hloop =>
  cases h
  cases hfuel : encoded.length with
  | zero =>
    rw [hfuel] at hloop
    cases hloop
  | succ fuel =>
    rw [hfuel] at hloop
    unfold parseLoop at hloop
    rw [if_pos (by omega)] at hloop
    split at hloop
    · cases hloop
    next payload keyBytes position hpayload =>
    split at hloop
    · cases hloop
    have hhead : payload = q := by
      obtain ⟨rest, hrest⟩ := parseLoop_prefix hloop
      exact (List.cons.inj hrest).1
    rw [← hhead, ← hfuel]
    exact parsePayload_offset hpayload

/-- The first entry of a section that was read stands behind its header. -/
theorem readSection_first [Zlib] {file : ReadableFile} {indexOffset expectedIndexSize : Nat} {s : IndexSection}
    {totalKeyBytes sectionEnd : Nat} {p : Payload} {ps : List Payload}
    (h : readSection file indexOffset expectedIndexSize false 0 0 = .ok (s, totalKeyBytes, sectionEnd))
    (hs : s.payloads = p :: ps) : At file.bytes (indexOffset + 9) (u64Bytes p.dataBlockOffset) := by
  unfold readSection at h
  split at h
  · cases h
  next halign =>
  have hedge : indexOffset % BLOCK_SIZE = 0 := not_not.mp halign
  obtain ⟨fileSize, -, h⟩ := except_bind_ok h
  split at h
  · cases h
  obtain ⟨⟨header, cursor⟩, hheader, h⟩ := except_bind_ok h
  obtain ⟨computedEnd, -, h⟩ := except_bind_ok h
  obtain ⟨encoded, hencoded, h⟩ := except_bind_ok h
  obtain ⟨⟨parsed, total⟩, hparse, h⟩ := except_bind_ok h
  obtain ⟨_, -, h⟩ := except_bind_ok h
  dsimp only at h
  rw [if_neg Bool.false_ne_true] at h
  split at h
  · cases h
  cases h
  have hcursor : cursor = indexOffset + 9 := Header.load_consumes file _ _ _ (by rw [hedge]; decide) hheader
  cases parsed with
  | nil => cases hs
  | cons q qs =>
    have hq : q.payload encoded = p := (List.cons.inj hs).1
    obtain ⟨hlen, hoffset⟩ := parse_first hparse
    obtain ⟨⟨d, payloadEnd⟩, hread, hrest⟩ := except_bind_ok hencoded
    dsimp only at hrest
    have hd : d = encoded := by
      split at hrest
      · cases hrest
      split at hrest
      · cases hrest
      · cases hrest
        rfl
    subst hd
    have hat : At file.bytes cursor d := by
      unfold readExactAt at hread
      split at hread
      · cases hread
        exact List.nil_prefix
      split at hread
      · cases hread
      split at hread
      next data hdata =>
        cases hread
        exact (at_of_readAt hdata).1
      · cases hread
    have hbytes : u64Bytes p.dataBlockOffset = d.take 8 := by
      rw [← hq]
      show u64Bytes q.dataBlockOffset = _
      rw [hoffset]
      exact u64Bytes_u64Of (by rw [List.length_take]; omega)
    rw [hbytes, ← hcursor]
    exact (List.take_prefix 8 d).trans hat

/-- Consecutive entries are at consecutive blocks. -/
theorem chain_offset {p : Payload} {ps : List Payload} (h : (p :: ps).IsChain Next) {i : Nat} {q : Payload}
    (hq : (p :: ps)[i]? = some q) : q.dataBlockOffset.toNat = p.dataBlockOffset.toNat + i * BLOCK_SIZE := by
  induction i generalizing q with
  | zero =>
    cases hq
    omega
  | succ i ih =>
    obtain ⟨hlt, rfl⟩ := List.getElem?_eq_some_iff.mp hq
    have hnext : Next (p :: ps)[i] (p :: ps)[i + 1] := List.isChain_iff_getElem.mp h i hlt
    have hprev := ih (List.getElem?_eq_getElem (by omega))
    rw [hnext.offset, hprev, Nat.succ_mul]
    omega

/-- A candidate is an entry of the index. -/
theorem findFirstCandidate_lt {s : IndexSection} (h : Sequence s.payloads) {key : ArenaEntry} {i : Nat}
    (hi : s.findFirstCandidate key = .ok i) : i < s.payloads.length := by
  unfold findFirstCandidate at hi
  rw [findCandidateRange_eq h key] at hi
  split at hi
  next hlt =>
    cases hi
    have hle : (s.payloads.takeWhile (beginsUpTo key)).length ≤ s.payloads.length :=
        (List.takeWhile_prefix _).length_le
    show (s.payloads.takeWhile (endsBefore key)).length < _
    omega
  · cases hi

end IndexSection

/-! ## When the index matches -/

theorem MetaSection.validateIndexConsistency_count {p : Payload} {index : IndexSection}
    (h : validateIndexConsistency p index = .ok ()) : p.dataBlockCount.toNat = index.payloads.length := by
  unfold validateIndexConsistency at h
  split at h
  · cases h
  next hcount => exact not_not.mp hcount

namespace SSTable

variable [Zlib] {file : ReadableFile} {t : LoadedTable} {footerOffset : Nat}

/-- The count and the first entry say the rest. -/
theorem Inspected.matches_of_first (h : Inspected file t footerOffset)
    (hcount : t.indexSection.payloads.length = t.fileFooterSection.dataBlockCount.toNat)
    (hfirst : ∀ p ps, t.indexSection.payloads = p :: ps → p.dataBlockOffset = t.fileFooterSection.dataOffset) :
    t.IndexMatches := by
  have hoffsets : ∀ (i : Nat) (p : IndexSection.Payload), t.indexSection.payloads[i]? = some p →
      p.dataBlockOffset.toNat = t.fileFooterSection.dataOffset.toNat + i * BLOCK_SIZE := by
    intro i p hp
    cases hs : t.indexSection.payloads with
    | nil =>
      rw [hs] at hp
      cases hp
    | cons q qs =>
      have hchain := h.sequence.chain
      rw [hs] at hp hchain
      rw [IndexSection.chain_offset hchain hp, hfirst q qs hs]
  refine ⟨hcount, hoffsets, ?_⟩
  intro key i hi
  obtain ⟨cursor, hblocks⟩ := h.blocks
  obtain ⟨hlen, hconsecutive, -⟩ := DataSectionView.load_ok hblocks
  have hlt := IndexSection.findFirstCandidate_lt h.sequence hi
  have hb := List.getElem?_eq_getElem (show i < t.dataSectionView.dataBlocks.length by omega)
  have hp := List.getElem?_eq_getElem hlt
  refine ⟨_, _, hb, hp, ?_⟩
  rw [(hconsecutive i _ hb).1, hoffsets i _ hp]

/-- **The index of an accepted table** describes its data blocks exactly when the file says both times how many there
are and where they begin. -/
theorem index_matches_iff {path : List UInt8} {s s' : LoadState} (h : load path (.ok file) s = (.ok t, s')) :
    t.IndexMatches ↔ IndexAgrees file := by
  obtain ⟨_, hopened, hsections⟩ := load_ok h
  cases hopened
  obtain ⟨footerOffset, hi⟩ := loadSections_ok hsections
  obtain ⟨-, -, hcountAt⟩ := loadSections_sizes hsections
  obtain ⟨cursor, hfooter⟩ := hi.footer
  obtain ⟨total, hread⟩ := hi.index
  obtain ⟨_, -, hvalid⟩ := except_bind_ok hi.metadata
  obtain ⟨_, -, hvalid⟩ := except_bind_ok hvalid
  have hconsistent : MetaSection.validateIndexConsistency t.metaSection.payload t.indexSection = .ok () := by
    split at hvalid
    · cases hvalid
    split at hvalid
    · cases hvalid
    · exact hvalid
  have hmetaCount := MetaSection.validateIndexConsistency_count hconsistent
  constructor
  · intro hmatches
    have hcount : t.metaSection.payload.dataBlockCount = t.fileFooterSection.dataBlockCount :=
      UInt64.toNat_inj.mp (hmetaCount.trans hmatches.count)
    rw [hcount] at hcountAt
    refine ⟨t.fileFooterSection, cursor, hfooter, hcountAt, fun hne => ?_⟩
    cases hs : t.indexSection.payloads with
    | nil =>
      have hzero := hmatches.count
      rw [hs] at hzero
      exact absurd (UInt64.toNat_inj.mp hzero.symm) hne
    | cons p ps =>
      have hoffset := hmatches.offsets 0 p (by rw [hs]; rfl)
      rw [Nat.zero_mul, Nat.add_zero] at hoffset
      rw [← UInt64.toNat_inj.mp hoffset]
      exact IndexSection.readSection_first hread hs
  · rintro ⟨footer, cursor', hfooter', hagree, hfirst⟩
    rw [hfooter] at hfooter'
    cases hfooter'
    have hcount : t.indexSection.payloads.length = t.fileFooterSection.dataBlockCount.toNat := by
      rw [← hmetaCount, u64_unique hcountAt hagree]
    refine hi.matches_of_first hcount ?_
    intro p ps hs
    refine u64_unique (IndexSection.readSection_first hread hs) (hfirst fun hzero => ?_)
    rw [hs, hzero] at hcount
    cases hcount

end SSTable

theorem index_matches_iff_fourRecords : let _ := documentedZlib
    ∃ t' w' t s', twoBlockBuilt.write quietCalls ⟨[], 0, none, ⟨.ioError, ""⟩⟩ = (.ok t', w') ∧
      SSTable.load t'.path (.ok (.ofBytes w'.bytes "a")) freshLoad = (.ok t, s') ∧
      (t.IndexMatches ↔ SSTable.IndexAgrees (.ofBytes w'.bytes "a")) := by
  intro
  obtain ⟨t', w', s', hwrite, hload⟩ := twoBlockBuilt_loads
  exact ⟨t', w', _, s', hwrite, hload, SSTable.index_matches_iff hload⟩

/-! ## A table without data blocks whose index has an entry -/

/-- The bytes at the start of a block of their own. -/
def blockOf (d : List UInt8) : List UInt8 := d ++ List.replicate (BLOCK_SIZE - d.length) 0

theorem length_blockOf {d : List UInt8} (h : d.length ≤ BLOCK_SIZE) : (blockOf d).length = BLOCK_SIZE := by
  rw [blockOf, List.length_append, List.length_replicate]
  omega

/-- Four sections in blocks of their own, and a footer. -/
def laidOut (a b c d footer : List UInt8) : List UInt8 := blockOf a ++
    (blockOf b ++ (blockOf c ++ (blockOf d ++ footer)))

theorem at_blockOf {p d r : List UInt8} {off : Nat} (hp : p.length = off) : At (p ++ (blockOf d ++ r)) off d := by
  subst hp
  rw [At, List.drop_left, blockOf, List.append_assoc]
  exact List.prefix_append _ _

theorem at_after {p d : List UInt8} {off : Nat} (hp : p.length = off) : At (p ++ d) off d := by
  subst hp
  rw [At, List.drop_left]

theorem at_laidOut {a b c d footer : List UInt8} (ha : a.length ≤ BLOCK_SIZE) (hb : b.length ≤ BLOCK_SIZE)
    (hc : c.length ≤ BLOCK_SIZE) (hd : d.length ≤ BLOCK_SIZE) :
    At (laidOut a b c d footer) 0 a ∧ At (laidOut a b c d footer) BLOCK_SIZE b ∧
      At (laidOut a b c d footer) (2 * BLOCK_SIZE) c ∧ At (laidOut a b c d footer) (3 * BLOCK_SIZE) d ∧
      At (laidOut a b c d footer) (4 * BLOCK_SIZE) footer ∧
      (laidOut a b c d footer).length = 4 * BLOCK_SIZE + footer.length := by
  have la := length_blockOf ha
  have lb := length_blockOf hb
  have lc := length_blockOf hc
  have ld := length_blockOf hd
  unfold laidOut
  refine ⟨?_, ?_, ?_, ?_, ?_, ?_⟩
  · rw [← List.nil_append (blockOf a ++ _)]
    exact at_blockOf rfl
  · exact at_blockOf la
  · rw [← List.append_assoc]
    exact at_blockOf (by rw [List.length_append]; omega)
  · rw [← List.append_assoc, ← List.append_assoc]
    exact at_blockOf (by rw [List.length_append, List.length_append]; omega)
  · rw [← List.append_assoc, ← List.append_assoc, ← List.append_assoc]
    exact at_after (by rw [List.length_append, List.length_append, List.length_append]; omega)
  · simp only [List.length_append]
    omega

def strayMeta : MetaSection.Payload := ⟨1, 0, 7, 7, .ofByte 5, .ofByte 5, 1, 36⟩

section

variable [Zlib]

/-- One record in the metadata, one entry in the index, and no data block in the footer. -/
def noBlocksTable : LoadedTable where
  fileHeaderSection := .ofTableId 1
  dataSectionView := ⟨4096, 4096, []⟩
  indexSection := .ofPayloads [⟨4096, .ofByte 5, .ofByte 5⟩]
  bloomSection := .ofPayload .blank
  metaSection := .ofPayload strayMeta
  fileFooterSection := FileFooterSection.sealed ⟨0, 0, 0, 4096, 0, 4096, 27, 8192, 153, 12288, 67, 0, 0⟩ 16384

/-- The file of the table. -/
def noBlocksFile : List UInt8 :=
  laidOut noBlocksTable.fileHeaderSection.encode (IndexSection.encode noBlocksTable.indexSection.payloads)
    noBlocksTable.bloomSection.encode (MetaSection.encode noBlocksTable.metaSection.payload)
    noBlocksTable.fileFooterSection.encode

theorem noBlocksTable_image : SSTable.Image (.ofBytes noBlocksFile "a") noBlocksTable 16384 := by
  have hheader : noBlocksTable.fileHeaderSection.encode.length ≤ BLOCK_SIZE := by
    rw [FileHeaderSection.length_encode]
    decide
  have hindex : (IndexSection.encode noBlocksTable.indexSection.payloads).length ≤ BLOCK_SIZE := by
    rw [IndexSection.length_encode]
    show 27 ≤ 4096
    decide
  have hbloom : noBlocksTable.bloomSection.encode.length ≤ BLOCK_SIZE := by
    rw [BloomSection.length_encode]
    decide
  have hmeta : (MetaSection.encode noBlocksTable.metaSection.payload).length ≤ BLOCK_SIZE := by
    rw [MetaSection.length_encode]
    show 67 ≤ 4096
    decide
  have hlaid := @at_laidOut _ _ _ _ noBlocksTable.fileFooterSection.encode hheader hindex hbloom hmeta
  obtain ⟨headerAt, indexAt, bloomAt, metaAt, footerAt, hlength⟩ := hlaid
  rw [FileFooterSection.length_encode] at hlength
  constructor
  case size => exact hlength
  case headerAt => exact headerAt
  case headerFields => rfl
  case headerCrc =>
    have hsealed : ∀ h : FileHeaderSection, h.sealed.calculateCrc32 = h.sealed.crc32 := fun _ => rfl
    exact hsealed _
  case footerAt => exact footerAt
  case footerSealed => rfl
  case layout =>
    exact {
      footer := rfl
      size := rfl
      index := (by decide : 4096 % 4096 = 0)
      bloom := (by decide : 8192 % 4096 = 0)
      metadata := (by decide : 12288 % 4096 = 0)
      data := fun h => absurd rfl h
      empty := fun _ => Nat.le_refl 4096
      indexSize := (by decide : 9 ≤ 27)
      bloomSize := rfl
      metaSize := (by decide : 65 ≤ 67 ∧ 67 ≤ 4096)
      indexEnd := (by decide : 4096 + 27 ≤ 8192)
      bloomEnd := (by decide : 8192 + 153 ≤ 12288)
      metaEnd := (by decide : 12288 + 67 ≤ 16384) }
  case dataStart => exact (by decide : 24 ≤ 4096)
  case view => rfl
  case count => rfl
  case blocks => trivial
  case index => rfl
  case sequence =>
    show IndexSection.Sequence [⟨4096, .ofByte 5, .ofByte 5⟩]
    exact ((IndexSection.validatePayloadSequence_ok_iff _ 18).mp (by decide +kernel)).1
  case indexAt => exact indexAt
  case indexSize => rfl
  case bloom => rfl
  case bloomValid => exact BloomSection.Payload.validate_blank
  case bloomAt => exact bloomAt
  case metadata => rfl
  case metaValid => exact (by decide : strayMeta.validate = .ok ())
  case metaAt => exact metaAt
  case metaSize => rfl
  case consistent => rfl

end

/-- The file is accepted, and its index sends the key `5` to a data block that the table does not have. -/
theorem index_outside_view : let _ := documentedZlib
    ∃ s', SSTable.load [97] (.ok (.ofBytes noBlocksFile "a")) freshLoad = (.ok noBlocksTable, s') ∧
      noBlocksTable.indexSection.payloads.length = 1 ∧ noBlocksTable.fileFooterSection.dataBlockCount = 0 ∧
      noBlocksTable.indexSection.findFirstCandidate (.ofByte 5) = .ok 0 ∧
      noBlocksTable.dataSectionView.dataBlocks = [] ∧ ¬noBlocksTable.IndexMatches := by
  intro
  have := documentedZlib_lawful
  have hf : (ReadableFile.ofBytes noBlocksFile "a").Sound := ReadableFile.ofBytes_sound _ "a"
  obtain ⟨s', hload, -⟩ := noBlocksTable_image.load hf (show [97] ≠ [] by decide) 0 freshLoad freshLoad_calm rfl
  have hcandidate : noBlocksTable.indexSection.findFirstCandidate (.ofByte 5) = .ok 0 := by decide +kernel
  refine ⟨s', hload, rfl, rfl, hcandidate, rfl, ?_⟩
  intro hmatches
  obtain ⟨b, p, hb, -⟩ := hmatches.candidates (.ofByte 5) 0 hcandidate
  cases hb

end Kvdb
