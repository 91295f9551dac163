import Kvdb.Allocator.Loading
import Kvdb.Lib.LowerBound
import Kvdb.SSTable.IndexSection

/-!
# Loading and searching the index

`IndexSection::load` reads the entries of an index from one block of arbitrary bytes,
checks them as a sequence and copies their keys into the arena.  The compatible
overload looks only at the index itself; the strict one also compares the entries with
the layout that the footer declares.

    load  →  find_candidate_range key = [first, last_exclusive)

Neighbouring ranges may share one key, so a key can have several candidates; they are
found by two binary searches (`findCandidateRange_exact`).
-/

namespace Kvdb

open Faulty Bytes DataSectionView

namespace IndexSection

/-! ## Parsing -/

/-- `IndexSection::Header::load`. -/
def Header.load : FileReader Header := do
  let offset ← Reader.offset
  Reader.lift (fitsInBlock offset diskSize BLOCK_SIZE)
  let type ← readU8 BLOCK_SIZE
  let payloadSize ← readU32Le BLOCK_SIZE
  let crc32 ← readU32Le BLOCK_SIZE
  let result : Header := ⟨type, payloadSize, crc32⟩
  Reader.lift result.validate
  pure result

/-- `ParsedPayload`: where the keys of an entry stand in the encoded payload. -/
structure ParsedPayload where
  dataBlockOffset : UInt64
  firstKeySize : UInt32
  lastKeySize : UInt32
  firstKeyPosition : Nat
  lastKeyPosition : Nat
deriving DecidableEq

/-- The entry with its keys copied out of the encoded payload. -/
def ParsedPayload.payload (encoded : List UInt8) (p : ParsedPayload) : Payload where
  dataBlockOffset := p.dataBlockOffset
  firstKey := .ofTake (encoded.drop p.firstKeyPosition) p.firstKeySize
  lastKey := .ofTake (encoded.drop p.lastKeyPosition) p.lastKeySize

/-- `read_u64_le` and `read_u32_le` on the encoded payload. -/
def spanField (size : Nat) : SpanReader (List UInt8) := fun bytes position =>
  if position > bytes.length ∨ bytes.length - position < size then
    .error ⟨.invalidPayloadSize, "failed to decode fixed index entry fields"⟩
  else .ok ((bytes.drop position).take size, position + size)

/-- The keys of an entry, behind its fixed fields. -/
def keySpans (dataBlockOffset : UInt64) (firstKeySize lastKeySize : UInt32) : SpanReader (ParsedPayload × Nat) :=
  fun bytes position =>
    let keyBytes := firstKeySize.toNat + lastKeySize.toNat
    if keyBytes > bytes.length - position then
      .error ⟨.invalidPayloadSize, "index entry key sizes exceed remaining payload bytes"⟩
    else
      .ok ((⟨dataBlockOffset, firstKeySize, lastKeySize, position, position + firstKeySize.toNat⟩, keyBytes),
        position + keyBytes)

/-- One round of the parsing loop: the entry, and the bytes of its keys. -/
def parsePayload : SpanReader (ParsedPayload × Nat) := fun bytes position =>
  if bytes.length - position < Payload.fixedDiskSize then
    .error ⟨.invalidPayloadSize, "index payload ends inside an entry's fixed fields"⟩
  else
    (do
      let dataBlockOffset ← spanField 8
      let firstKeySize ← spanField 4
      let lastKeySize ← spanField 4
      keySpans (u64Of dataBlockOffset) (u32Of firstKeySize) (u32Of lastKeySize) : SpanReader (ParsedPayload × Nat))
        bytes position

/-- The parsing loop: the entries, and the bytes of all keys. -/
def parseLoop : Nat → List ParsedPayload → Nat → SpanReader (List ParsedPayload × Nat)
  | 0, parsed, totalKeyBytes => pure (parsed, totalKeyBytes)
  | fuel + 1, parsed, totalKeyBytes => fun bytes position =>
    if position < bytes.length then
      match parsePayload bytes position with
      | .error e => .error e
      | .ok ((payload, keyBytes), next) =>
        match checkedAdd totalKeyBytes keyBytes with
        | none => .error ⟨.dataTypeOverflow, "loaded index key-byte count overflows uint64_t"⟩
        | some total => parseLoop fuel (parsed ++ [payload]) total bytes next
    else .ok ((parsed, totalKeyBytes), position)

/-- The entries of an encoded payload. -/
def parse (encoded : List UInt8) : Except Status (List ParsedPayload × Nat) :=
  match parseLoop encoded.length [] 0 encoded 0 with
  | .error e => .error e
  | .ok (r, _) => .ok r

def loadedMessages : NextMessages where
  overflow := "loaded index data-block offset progression overflows uint64_t"
  offset := "loaded index entries do not reference consecutive data blocks"
  keys := "loaded adjacent index ranges overlap out of order"

/-- The loop of `validate_parsed_sequence`. -/
def validateParsedSequence : Option Payload → List Payload → Except Status Unit
  | _, [] => .ok ()
  | previous, p :: ps => do
    if p.dataBlockOffset.toNat % BLOCK_SIZE ≠ 0 then
      .error ⟨.invalidSectionOffset, "loaded index entry references an unaligned data block"⟩
    else if compareKeys p.firstKey.bytes p.lastKey.bytes = .gt then
      .error ⟨.corruption, "loaded index entry first key is greater than its last key"⟩
    else do
      validateAfter loadedMessages previous p
      validateParsedSequence (some p) ps

/-- The loop of the strict overload over the entries from the `i`-th on. -/
def checkDataOffsets (firstDataBlockOffset : Nat) : Nat → List Payload → Except Status Unit
  | _, [] => .ok ()
  | i, p :: ps =>
    match (checkedMul i BLOCK_SIZE).bind (checkedAdd firstDataBlockOffset) with
    | none => .error ⟨.dataTypeOverflow, "footer data layout overflows uint64_t"⟩
    | some expectedOffset =>
      if p.dataBlockOffset.toNat ≠ expectedOffset then
        .error ⟨.invalidSectionOffset, "index data-block offset does not match footer data layout"⟩
      else checkDataOffsets firstDataBlockOffset (i + 1) ps

/-- What the strict overload checks besides: the entries against the layout in the footer. -/
def checkLayout (indexOffset firstDataBlockOffset dataBlockCount : Nat) (ps : List Payload) : Except Status Unit :=
  match (checkedMul dataBlockCount BLOCK_SIZE).bind (checkedAdd firstDataBlockOffset) with
  | none => .error ⟨.dataTypeOverflow, "footer data section extent overflows uint64_t"⟩
  | some expectedIndexOffset =>
    if dataBlockCount > 0 ∧ expectedIndexOffset ≠ indexOffset then
      .error ⟨.invalidSectionOffset, "footer data layout does not end at the index section"⟩
    else if dataBlockCount = 0 ∧ firstDataBlockOffset > indexOffset then
      .error ⟨.invalidSectionOffset, "empty data section offset lies after the index section"⟩
    else if ps.length ≠ dataBlockCount then
      .error ⟨.invalidSectionSize, "index entry count does not match footer data-block count"⟩
    else if dataBlockCount > 0 ∧ firstDataBlockOffset % BLOCK_SIZE ≠ 0 then
      .error ⟨.invalidBlockAlignment, "footer data section offset is not block aligned"⟩
    else checkDataOffsets firstDataBlockOffset 0 ps

/-! ## Loading -/

section

variable [Zlib]

/-- `IndexSection::validate`. -/
def validate (s : IndexSection) : Except Status Unit := do
  let payloadBytes ← validatePayloadSequence s.payloads
  s.header.validate
  if s.header.payloadSize.toNat ≠ payloadBytes then
    .error ⟨.invalidHeader, "index header payload size is stale or inconsistent"⟩
  else if s.header.crc32 ≠ s.payloads.foldl Payload.appendCrc32 crc32Init then
    .error ⟨.invalidHeader, "index header CRC is stale or inconsistent"⟩
  else .ok ()

/-- The checks of `load_impl` between its header and its payload: the end of the section. -/
def checkExtent (fileSize indexOffset expectedIndexSize : Nat) (h : Header) : Except Status Nat :=
  match checkedAdd Header.diskSize h.payloadSize.toNat with
  | none => .error ⟨.dataTypeOverflow, "index section size overflows uint64_t"⟩
  | some sectionSize =>
    if expectedIndexSize ≠ 0 ∧ sectionSize ≠ expectedIndexSize then
      .error ⟨.invalidSectionSize, "footer index size does not match the index header"⟩
    else
      match checkedAdd indexOffset sectionSize with
      | none => .error ⟨.unexpectedEOF, "index section is truncated"⟩
      | some sectionEnd =>
        if sectionEnd > fileSize then .error ⟨.unexpectedEOF, "index section is truncated"⟩
        else if sectionSize > BLOCK_SIZE then
          .error ⟨.invalidSectionSize, "version-1 index section crosses its physical block"⟩
        else .ok sectionEnd

/-- The payload behind its header, which it has to end with. -/
def readPayload (h : Header) (sectionEnd cursor : Nat) (file : ReadableFile) : Except Status (List UInt8) := do
  let (encoded, payloadEnd) ← readExactAt h.payloadSize.toNat file cursor
  if h.payloadSize.toNat ≠ 0 ∧ payloadEnd ≠ sectionEnd then
    .error ⟨.invalidOffset, "index payload read ended at an unexpected offset"⟩
  else if computeCrc32 crc32Init encoded ≠ h.crc32 then
    .error ⟨.checksumMismatch, "index payload CRC mismatch: expected=" ++ toString (computeCrc32 crc32Init encoded)
      ++ ", actual=" ++ toString h.crc32⟩
  else pure encoded

/-- What `load_impl` reads and checks in front of its allocation: the section with the bytes of its keys, and its
end. -/
def readSection (file : ReadableFile) (indexOffset expectedIndexSize : Nat) (validateLayout : Bool)
    (firstDataBlockOffset dataBlockCount : Nat) : Except Status (IndexSection × Nat × Nat) := do
  if indexOffset % BLOCK_SIZE ≠ 0 then
    .error ⟨.invalidBlockAlignment, "index section offset is not block aligned"⟩
  else do
    let fileSize ← file.getFileSize
    if indexOffset > fileSize then
      .error ⟨.offsetOutOfRange, "index section offset lies beyond end of file"⟩
    else do
      let (loadedHeader, cursor) ← Header.load file indexOffset
      let sectionEnd ← checkExtent fileSize indexOffset expectedIndexSize loadedHeader
      let encoded ← readPayload loadedHeader sectionEnd cursor file
      let (parsed, totalKeyBytes) ← parse encoded
      let payloads := parsed.map (ParsedPayload.payload encoded)
      validateParsedSequence none payloads
      if validateLayout then checkLayout indexOffset firstDataBlockOffset dataBlockCount payloads else pure ()
      if totalKeyBytes > sizeMax then
        .error ⟨.allocationTooLarge, "loaded index keys cannot be represented by size_t"⟩
      else pure (⟨loadedHeader, payloads⟩, totalKeyBytes, sectionEnd)

/-- `load_impl`: the keys are copied into one allocation. -/
def loadImpl (file : ReadableFile) (indexOffset expectedIndexSize : Nat) (validateLayout : Bool)
    (firstDataBlockOffset dataBlockCount : Nat) : LoadM IndexSection :=
  .rollingBack do
    let (result, totalKeyBytes, sectionEnd) ←
      LoadM.check (readSection file indexOffset expectedIndexSize validateLayout firstDataBlockOffset dataBlockCount)
    if totalKeyBytes > 0 then
      let _ ← LoadM.alloc totalKeyBytes
    LoadM.check result.validate
    LoadM.setOffset sectionEnd
    pure result

/-- The compatible overload of `IndexSection::load`; an expected size of zero is none. -/
def load (file : ReadableFile) (indexOffset expectedIndexSize : Nat) : LoadM IndexSection :=
  loadImpl file indexOffset expectedIndexSize false 0 0

/-- The strict overload. -/
def loadStrict (file : ReadableFile) (indexOffset expectedIndexSize firstDataBlockOffset dataBlockCount : Nat) :
    LoadM IndexSection :=
  loadImpl file indexOffset expectedIndexSize true firstDataBlockOffset dataBlockCount

end

/-! ## Searching -/

structure CandidateRange where
  first : Nat
  lastExclusive : Nat
deriving DecidableEq

/-- The first search passes over the ranges that end before the key. -/
def endsBefore (key : ArenaEntry) (p : Payload) : Bool := compareKeys p.lastKey.bytes key.bytes == .lt

/-- The second one passes over the ranges that do not begin behind the key. -/
def beginsUpTo (key : ArenaEntry) (p : Payload) : Bool := compareKeys p.firstKey.bytes key.bytes != .gt

def outsideEveryRange : Status := ⟨.notFound, "lookup key is outside every index range"⟩

/-- `IndexSection::find_candidate_range`. -/
def findCandidateRange (s : IndexSection) (key : ArenaEntry) : Except Status CandidateRange := do
  let _ ← validatePayloadSequence s.payloads
  let first := LowerBound.lowerBound (endsBefore key) s.payloads
  match s.payloads[first]? with
  | none => .error outsideEveryRange
  | some payload =>
    if compareKeys payload.firstKey.bytes key.bytes = .gt then .error outsideEveryRange
    else
      pure ⟨first, LowerBound.loop (beginsUpTo key) s.payloads s.payloads.length first (s.payloads.length - first)⟩

/-- `IndexSection::find_first_candidate`. -/
def findFirstCandidate (s : IndexSection) (key : ArenaEntry) : Except Status Nat := do
  let range ← s.findCandidateRange key
  pure range.first

/-! ## Well-formed indexes -/

section

variable [Zlib]

/-- The indexes that the program can have: the empty one, those built further by `add_index`, and those that one of
the loaders accepts. -/
inductive Obtained : IndexSection → Prop
  | empty : Obtained empty
  | addIndex {s t : IndexSection} {dataBlockOffset : UInt64} {firstKey lastKey : ArenaEntry} (hs : Obtained s)
      (h : s.addIndex dataBlockOffset firstKey lastKey = .ok t) : Obtained t
  | load {file : ReadableFile} {indexOffset expectedIndexSize : Nat} {a b : LoadState} {s : IndexSection}
      (h : load file indexOffset expectedIndexSize a = (.ok s, b)) : Obtained s
  | loadStrict {file : ReadableFile} {indexOffset expectedIndexSize firstDataBlockOffset dataBlockCount : Nat}
      {a b : LoadState} {s : IndexSection}
      (h : loadStrict file indexOffset expectedIndexSize firstDataBlockOffset dataBlockCount a = (.ok s, b)) :
        Obtained s

theorem validate_ok {s : IndexSection} (h : s.validate = .ok ()) : Sequence s.payloads := by
  obtain ⟨total, htotal, -⟩ := except_bind_ok h
  exact ((validatePayloadSequence_ok_iff _ _).mp htotal).1

/-- What a finished load read, and what it validated. -/
theorem loadImpl_ok {file : ReadableFile} {indexOffset expectedIndexSize : Nat} {validateLayout : Bool}
    {firstDataBlockOffset dataBlockCount : Nat} {a b : LoadState} {s : IndexSection}
    (h : loadImpl file indexOffset expectedIndexSize validateLayout firstDataBlockOffset dataBlockCount a =
      (.ok s, b)) :
    (∃ totalKeyBytes, readSection file indexOffset expectedIndexSize validateLayout firstDataBlockOffset
      dataBlockCount =
      .ok (s, totalKeyBytes, b.offset)) ∧ s.validate = .ok () := by
  obtain ⟨⟨result, totalKeyBytes, sectionEnd⟩, hread, h⟩ := LoadM.check_bind_ok (LoadM.rollingBack_ok.mp h)
  dsimp only at h
  have hrest : ∀ c : LoadState, (do
      LoadM.check result.validate
      LoadM.setOffset sectionEnd
      pure result : LoadM IndexSection) c = (.ok s, b) →
        result = s ∧ b.offset = sectionEnd ∧ result.validate = .ok () := by
    intro c hc
    obtain ⟨_, hvalid, hc⟩ := LoadM.check_bind_ok hc
    cases hc
    exact ⟨rfl, rfl, hvalid⟩
  have hend : result = s ∧ b.offset = sectionEnd ∧ result.validate = .ok () := by
    split at h
    · obtain ⟨_, c, -, h⟩ := bind_eq_ok h
      exact hrest c h
    · exact hrest a h
  obtain ⟨rfl, hoff, hvalid⟩ := hend
  rw [hoff]
  exact ⟨⟨totalKeyBytes, hread⟩, hvalid⟩

/-- Every index of the program is a well-formed sequence. -/
theorem Obtained.sequence {s : IndexSection} (h : Obtained s) : Sequence s.payloads := by
  cases h with
  | empty => exact Sequence.nil
  | addIndex hs h =>
    obtain ⟨hseq, rfl⟩ := (addIndex_ok_iff _ _ _ _ _).mp h
    exact hseq
  | load h => exact validate_ok (loadImpl_ok h).2
  | loadStrict h => exact validate_ok (loadImpl_ok h).2

end

/-! ## Candidates -/

/-- The range of an entry, both bounds included, contains a key. -/
def Payload.Contains (p : Payload) (key : ArenaEntry) : Prop := p.firstKey ≤ key ∧ key ≤ p.lastKey

theorem endsBefore_iff {key : ArenaEntry} {p : Payload} : endsBefore key p = true ↔ p.lastKey < key := by
  rw [endsBefore, beq_iff_eq, compareKeys_lt_iff]

theorem beginsUpTo_iff {key : ArenaEntry} {p : Payload} : beginsUpTo key p = true ↔ p.firstKey ≤ key := by
  rw [beginsUpTo, bne_iff_ne, compareKeys_gt_iff']

/-- In a well-formed sequence each range ends before the later ones begin, or at the key where one begins. -/
theorem Sequence.pairwise {ps : List Payload} (h : Sequence ps) : ps.Pairwise fun p q => p.lastKey ≤ q.firstKey := by
  obtain ⟨hentries, hchain, -⟩ := h
  induction ps with
  | nil => exact List.Pairwise.nil
  | cons p ps ih =>
    have hrest := ih (fun q hq => hentries q (List.mem_cons_of_mem p hq)) hchain.tail
    refine List.pairwise_cons.mpr ⟨?_, hrest⟩
    intro q hq
    cases ps with
    | nil => cases hq
    | cons p' ps =>
      have hnext : p.lastKey ≤ p'.firstKey := (List.isChain_cons_cons.mp hchain).1.keys
      rcases List.mem_cons.mp hq with rfl | hq
      · exact hnext
      · have hvalid : p'.firstKey ≤ p'.lastKey := (hentries p' (by simp)).keys
        have hlater : p'.lastKey ≤ q.firstKey := (List.pairwise_cons.mp hrest).1 q hq
        exact hnext.trans (hvalid.trans hlater)

section

variable {ps : List Payload} {key : ArenaEntry}

theorem Sequence.splits_endsBefore (h : Sequence ps) (key : ArenaEntry) :
    LowerBound.Splits (endsBefore key) ps := by
  refine h.pairwise.imp_of_mem fun {p q} hp hq hpq hend => ?_
  rw [endsBefore_iff] at hend ⊢
  exact lt_of_le_of_lt (hpq.trans (h.entries q hq).keys) hend

theorem Sequence.splits_beginsUpTo (h : Sequence ps) (key : ArenaEntry) :
    LowerBound.Splits (beginsUpTo key) ps := by
  refine h.pairwise.imp_of_mem fun {p q} hp hq hpq hbegin => ?_
  rw [beginsUpTo_iff] at hbegin ⊢
  exact ((h.entries p hp).keys.trans hpq).trans hbegin

/-- The second search, which starts at the result of the first one, finds the end of the ranges that begin up to the
key. -/
theorem Sequence.loop_eq (h : Sequence ps) (key : ArenaEntry) :
    LowerBound.loop (beginsUpTo key) ps ps.length (ps.takeWhile (endsBefore key)).length
      (ps.length - (ps.takeWhile (endsBefore key)).length) = (ps.takeWhile (beginsUpTo key)).length := by
  have hle : (ps.takeWhile (endsBefore key)).length ≤ ps.length := (List.takeWhile_prefix _).length_le
  refine LowerBound.loop_eq (h.splits_beginsUpTo key) _ _ _ (by omega) (by omega) ?_ ?_
  · intro j hj p hp
    have hend := (LowerBound.lt_takeWhile_iff (h.splits_endsBefore key) hp).mp hj
    rw [endsBefore_iff] at hend
    rw [beginsUpTo_iff]
    exact (h.entries p (List.mem_of_getElem? hp)).keys.trans hend.le
  · intro j hj p hp
    obtain ⟨hlt, -⟩ := List.getElem?_eq_some_iff.mp hp
    omega

/-- The entries whose ranges contain a key are those from the first that does not end before it to the last that
begins up to it. -/
theorem Sequence.contains_iff (h : Sequence ps) {i : Nat} {p : Payload} (hp : ps[i]? = some p) :
    p.Contains key ↔ (ps.takeWhile (endsBefore key)).length ≤ i ∧ i < (ps.takeWhile (beginsUpTo key)).length := by
  rw [LowerBound.lt_takeWhile_iff (h.splits_beginsUpTo key) hp, ← not_lt,
    LowerBound.lt_takeWhile_iff (h.splits_endsBefore key) hp, endsBefore_iff, beginsUpTo_iff, not_lt]
  exact and_comm

/-- A search in a well-formed index. -/
theorem findCandidateRange_eq {s : IndexSection} (h : Sequence s.payloads) (key : ArenaEntry) :
    s.findCandidateRange key =
      if (s.payloads.takeWhile (endsBefore key)).length < (s.payloads.takeWhile (beginsUpTo key)).length then
        .ok ⟨(s.payloads.takeWhile (endsBefore key)).length, (s.payloads.takeWhile (beginsUpTo key)).length⟩
      else .error outsideEveryRange := by
  have hle : (s.payloads.takeWhile (beginsUpTo key)).length ≤ s.payloads.length := (List.takeWhile_prefix _).length_le
  unfold findCandidateRange
  rw [(validatePayloadSequence_ok_iff _ _).mpr ⟨h, rfl⟩, ok_bind,
    LowerBound.lowerBound_eq (h.splits_endsBefore key)]
  dsimp only
  rw [h.loop_eq key]
  cases hget : s.payloads[(s.payloads.takeWhile (endsBefore key)).length]? with
  | none =>
    have hlen := List.getElem?_eq_none_iff.mp hget
    rw [if_neg (by omega)]
  | some p =>
    have hbegin := LowerBound.lt_takeWhile_iff (h.splits_beginsUpTo key) hget
    rw [beginsUpTo_iff] at hbegin
    dsimp only
    by_cases hkey : p.firstKey ≤ key
    · rw [if_neg (compareKeys_gt_iff'.mpr hkey), if_pos (hbegin.mpr hkey)]
      rfl
    · rw [if_pos (compareKeys_gt_iff.mpr (not_le.mp hkey)), if_neg (fun hlt => hkey (hbegin.mp hlt))]

/-- **Candidates.**  The range found has the entries whose ranges contain the key and no others; there is none
exactly when no range contains it. -/
theorem findCandidateRange_exact [Zlib] {s : IndexSection} (h : Obtained s) (key : ArenaEntry) :
    match s.findCandidateRange key with
    | .ok range =>
      range.first < range.lastExclusive ∧ range.lastExclusive ≤ s.payloads.length ∧
        ∀ i p, s.payloads[i]? = some p → (p.Contains key ↔ range.first ≤ i ∧ i < range.lastExclusive)
    | .error e => e.code = .notFound ∧ ∀ p ∈ s.payloads, ¬ p.Contains key := by
  have hseq := h.sequence
  rw [findCandidateRange_eq hseq key]
  by_cases hlt : (s.payloads.takeWhile (endsBefore key)).length < (s.payloads.takeWhile (beginsUpTo key)).length
  · rw [if_pos hlt]
    exact ⟨hlt, (List.takeWhile_prefix _).length_le, fun i p hp => hseq.contains_iff hp⟩
  · rw [if_neg hlt]
    refine ⟨rfl, fun p hp hcontains => ?_⟩
    obtain ⟨i, hi⟩ := List.mem_iff_getElem?.mp hp
    have hrange := (hseq.contains_iff hi).mp hcontains
    omega

end

/-- Two blocks that share the key at their boundary. -/
def sharedBoundary : List Payload := [⟨4096, .ofByte 97, .ofByte 98⟩, ⟨8192, .ofByte 98, .ofByte 98⟩]

theorem sharedBoundary_sequence : Sequence sharedBoundary :=
  ((validatePayloadSequence_ok_iff sharedBoundary 36).mp (by decide)).1

theorem sharedBoundary_obtained [Zlib] : Obtained (ofPayloads sharedBoundary) :=
  .addIndex (.addIndex .empty ((addIndex_ok_iff _ _ _ _ _).mpr ⟨@Sequence.left [_] [_] sharedBoundary_sequence,
    rfl⟩))
    ((addIndex_ok_iff _ _ _ _ _).mpr ⟨sharedBoundary_sequence, rfl⟩)

theorem findCandidateRange_exact_sharedBoundary :
    (@ofPayloads documentedZlib sharedBoundary).findCandidateRange (.ofByte 98) = .ok ⟨0, 2⟩ ∧
      ∀ i p, sharedBoundary[i]? = some p → (p.Contains (.ofByte 98) ↔ 0 ≤ i ∧ i < 2) := by
  have hexact := @findCandidateRange_exact documentedZlib _ (@sharedBoundary_obtained documentedZlib) (.ofByte 98)
  have hrange : (@ofPayloads documentedZlib sharedBoundary).findCandidateRange (.ofByte 98) = .ok ⟨0, 2⟩ := by
    decide +kernel
  rw [hrange] at hexact
  exact ⟨hrange, hexact.2.2⟩

end IndexSection

end Kvdb
