import Kvdb.Engine.TableFiles
import Kvdb.Manifest.Encoding
import Kvdb.SSTable.TableWriting
import Mathlib.Order.Bounds.Defs

/-!
# Exact table metadata

`MetaSection::rebuild` gathers the summary of the records (`gather_blocks`), so what
`make_table_meta` makes of a written table are the least and greatest keys and
sequence numbers of its records and their true counts (`makeTableMeta_exact`), and a
manifest edit gives them back.

    write t = ok t'  →  make_table_meta t' = ok m  →  Exact t.dataBlocks m
-/

namespace Kvdb

open Faulty Bytes

/-! ## Summaries of records -/

/-- The least and greatest sequence numbers that a fold has seen. -/
theorem foldl_add_seqs (rs : List InternalRecord) (s : RecordSummary) :
    ((rs.foldl RecordSummary.add s).minSeqNum.toNat ≤ s.minSeqNum.toNat ∧
        s.maxSeqNum.toNat ≤ (rs.foldl RecordSummary.add s).maxSeqNum.toNat) ∧
      (∀ r ∈ rs, (rs.foldl RecordSummary.add s).minSeqNum.toNat ≤ r.seqNum.toNat ∧
        r.seqNum.toNat ≤ (rs.foldl RecordSummary.add s).maxSeqNum.toNat) ∧
      ((rs.foldl RecordSummary.add s).minSeqNum = s.minSeqNum ∨
        ∃ r ∈ rs, (rs.foldl RecordSummary.add s).minSeqNum = r.seqNum) ∧
      ((rs.foldl RecordSummary.add s).maxSeqNum = s.maxSeqNum ∨
        ∃ r ∈ rs, (rs.foldl RecordSummary.add s).maxSeqNum = r.seqNum) := by
  induction rs generalizing s with
  | nil => exact ⟨⟨le_refl _, le_refl _⟩, by simp, .inl rfl, .inl rfl⟩
  | cons r rs ih =>
    obtain ⟨⟨hlow, hhigh⟩, hin, hfrom, hfrom'⟩ := ih (s.add r)
    have hmin : (s.add r).minSeqNum = if s.minSeqNum ≤ r.seqNum then s.minSeqNum else r.seqNum := rfl
    have hmax : (s.add r).maxSeqNum = if s.maxSeqNum ≤ r.seqNum then r.seqNum else s.maxSeqNum := rfl
    have hminNat : (s.add r).minSeqNum.toNat = min s.minSeqNum.toNat r.seqNum.toNat := by
      rw [hmin]
      split
      next h => exact (min_eq_left (UInt64.le_iff_toNat_le.mp h)).symm
      next h => exact (min_eq_right (Nat.le_of_lt (UInt64.lt_iff_toNat_lt.mp (UInt64.not_le.mp h)))).symm
    have hmaxNat : (s.add r).maxSeqNum.toNat = max s.maxSeqNum.toNat r.seqNum.toNat := by
      rw [hmax]
      split
      next h => exact (max_eq_right (UInt64.le_iff_toNat_le.mp h)).symm
      next h => exact (max_eq_left (Nat.le_of_lt (UInt64.lt_iff_toNat_lt.mp (UInt64.not_le.mp h)))).symm
    rw [hminNat] at hlow
    rw [hmaxNat] at hhigh
    rw [List.foldl_cons]
    refine ⟨⟨by omega, by omega⟩, ?_, ?_, ?_⟩
    · intro x hx
      rcases List.mem_cons.mp hx with rfl | hx
      · exact ⟨by omega, by omega⟩
      · exact hin x hx
    · rcases hfrom with heq | ⟨x, hx, heq⟩
      · rw [heq, hmin]
        split
        · exact .inl rfl
        · exact .inr ⟨r, by simp, rfl⟩
      · exact .inr ⟨x, by simp [hx], heq⟩
    · rcases hfrom' with heq | ⟨x, hx, heq⟩
      · rw [heq, hmax]
        split
        · exact .inr ⟨r, by simp, rfl⟩
        · exact .inl rfl
      · exact .inr ⟨x, by simp [hx], heq⟩

/-- The counts of a fold. -/
theorem foldl_add_counts (rs : List InternalRecord) (s : RecordSummary) :
    (rs.foldl RecordSummary.add s).tombstoneCount =
      s.tombstoneCount + UInt64.ofNat (rs.countP fun r => r.type = .tombstone) := by
  induction rs generalizing s with
  | nil => simp
  | cons r rs ih =>
    have hadd : (s.add r).tombstoneCount = if r.type = .tombstone then s.tombstoneCount + 1 else s.tombstoneCount := rfl
    rw [List.foldl_cons, ih, hadd, List.countP_cons]
    by_cases h : r.type = .tombstone
    · rw [if_pos h, if_pos (by simpa using h), UInt64.ofNat_add, UInt64.add_assoc, UInt64.add_comm (1 : UInt64)]
      rfl
    · rw [if_neg h, if_neg (by simpa using h), Nat.add_zero]

/-- The sequence numbers of a summary are those of records, and bounds on them. -/
theorem summarize_seqs {rs : List InternalRecord} {s : RecordSummary} (h : summarize rs = some s) :
    (∀ r ∈ rs, s.minSeqNum.toNat ≤ r.seqNum.toNat ∧ r.seqNum.toNat ≤ s.maxSeqNum.toNat) ∧
      (∃ r ∈ rs, s.minSeqNum = r.seqNum) ∧ ∃ r ∈ rs, s.maxSeqNum = r.seqNum := by
  cases rs with
  | nil => cases h
  | cons r rs =>
    cases h
    obtain ⟨⟨hlow, hhigh⟩, hin, hfrom, hfrom'⟩ := foldl_add_seqs rs (.first r)
    refine ⟨fun x hx => ?_, ?_, ?_⟩
    · rcases List.mem_cons.mp hx with rfl | hx
      · exact ⟨hlow, hhigh⟩
      · exact hin x hx
    · rcases hfrom with heq | ⟨x, hx, heq⟩
      · exact ⟨r, by simp, heq⟩
      · exact ⟨x, by simp [hx], heq⟩
    · rcases hfrom' with heq | ⟨x, hx, heq⟩
      · exact ⟨r, by simp, heq⟩
      · exact ⟨x, by simp [hx], heq⟩

theorem summarize_tombstones {rs : List InternalRecord} {s : RecordSummary} (h : summarize rs = some s) :
    s.tombstoneCount = UInt64.ofNat (rs.countP fun r => r.type = .tombstone) := by
  cases rs with
  | nil => cases h
  | cons r rs =>
    cases h
    have hfirst : (RecordSummary.first r).tombstoneCount = if r.type = .tombstone then 1 else 0 := rfl
    rw [foldl_add_counts, hfirst, List.countP_cons]
    by_cases ht : r.type = .tombstone
    · rw [if_pos ht, if_pos (by simpa using ht), UInt64.ofNat_add, UInt64.add_comm]
      rfl
    · rw [if_neg ht, if_neg (by simpa using ht), Nat.add_zero, UInt64.zero_add]

theorem summarize_concat (rs : List InternalRecord) (r : InternalRecord) :
    summarize (rs ++ [r]) = some (match summarize rs with
      | none => .first r
      | some s => s.add r) := by
  cases rs with
  | nil => rfl
  | cons x xs => simp [summarize]

/-! ## Gathering -/

theorem DataSection.Payload.toRecord_tombstone (p : DataSection.Payload) :
    p.toRecord.type = .tombstone ↔ p.type = RecType.tombstone.toU8 := by
  unfold toRecord RecType.ofU8
  by_cases hput : p.type = 0
  · simp [hput, RecType.toU8]
  · by_cases h : p.type = 1
    · simp [h, RecType.toU8]
    · simp [hput, h, RecType.toU8]

namespace MetaSection

/-- What the metadata says of the records. -/
def Payload.summary (p : Payload) : RecordSummary :=
  ⟨p.recordCount, p.tombstoneCount, p.minSeqNum, p.maxSeqNum, p.minKey, p.maxKey⟩

/-- What was gathered of records and the sizes of blocks. -/
structure Gathered (s : Staged) (ps : List DataSection.Payload) (bytes : Nat) : Prop where
  have_iff : s.haveRecord = true ↔ ps ≠ []
  summary : summarize (ps.map DataSection.Payload.toRecord) = if s.haveRecord then some s.payload.summary else none
  blank : s.haveRecord = false → s.payload.recordCount = 0 ∧ s.payload.tombstoneCount = 0
  count : s.payload.recordCount.toNat = ps.length
  bytes : s.payload.dataBytes.toNat = bytes

theorem gathered_start (n : Nat) : Gathered (Staged.start n) [] 0 :=
  ⟨⟨fun h => absurd h Bool.false_ne_true, fun h => absurd rfl h⟩, rfl, fun _ => ⟨rfl, rfl⟩, rfl, rfl⟩

/-- The counts with one more record. -/
theorem countRecord_ok {p q : Payload} {r : DataSection.Payload} (h : countRecord p r = .ok q) :
    p.recordCount.toNat + 1 < 2 ^ 64 ∧ q = { p with
      recordCount := p.recordCount + 1
      tombstoneCount := if r.toRecord.type = .tombstone then p.tombstoneCount + 1 else p.tombstoneCount } := by
  have hlt := p.recordCount.toNat_lt
  unfold countRecord at h
  split at h
  · cases h
  next hroom =>
  refine ⟨by omega, ?_⟩
  by_cases htype : r.type = RecType.tombstone.toU8
  · rw [if_pos htype] at h
    rw [if_pos (r.toRecord_tombstone.mpr htype)]
    split at h
    · cases h
    · cases h
      rfl
  · rw [if_neg htype] at h
    rw [if_neg fun ht => htype (r.toRecord_tombstone.mp ht)]
    cases h
    rfl

/-- The payload with the counts of one more record. -/
def Payload.counted (p : Payload) (r : DataSection.Payload) : Payload :=
  { p with
    recordCount := p.recordCount + 1
    tombstoneCount := if r.toRecord.type = .tombstone then p.tombstoneCount + 1 else p.tombstoneCount }

/-- The bounds leave the counts alone. -/
theorem boundRecord_counts (s : Staged) (r : DataSection.Payload) :
    (boundRecord s r).recordCount = s.payload.recordCount ∧ (boundRecord s r).dataBytes = s.payload.dataBytes := by
  unfold boundRecord
  split
  · exact ⟨rfl, rfl⟩
  · exact ⟨rfl, rfl⟩

theorem summary_first {p : Payload} (r : DataSection.Payload) (hcount : p.recordCount = 0)
    (htomb : p.tombstoneCount = 0) :
    (boundRecord ⟨p.counted r, false⟩ r).summary = .first r.toRecord := by
  simp only [boundRecord, Payload.counted, Payload.summary, RecordSummary.first, hcount, htomb]
  rfl

theorem summary_add (p : Payload) (r : DataSection.Payload) :
    (boundRecord ⟨p.counted r, true⟩ r).summary = p.summary.add r.toRecord := by
  have hlt : ∀ a b : ArenaEntry, compareKeys a.bytes b.bytes = .lt ↔ a.lt b = true := fun a b => by
    rw [compareKeys_lt_iff, ArenaEntry.lt_iff]
  have hgt : ∀ a b : ArenaEntry, compareKeys a.bytes b.bytes = .gt ↔ b.lt a = true := fun a b => by
    rw [compareKeys_gt_iff, ArenaEntry.lt_iff]
  simp only [boundRecord, Payload.counted, Payload.summary, RecordSummary.add, hlt, hgt]
  rfl

/-- One more record. -/
theorem Gathered.addRecord {s t : Staged} {ps : List DataSection.Payload} {bytes : Nat} {r : DataSection.Payload}
    (hs : Gathered s ps bytes) (h : MetaSection.addRecord s r = .ok t) : Gathered t (ps ++ [r]) bytes := by
  unfold MetaSection.addRecord at h
  split at h
  · cases h
  split at h
  · cases h
  obtain ⟨q, hcount, h⟩ := except_bind_ok h
  cases h
  obtain ⟨hlt, rfl⟩ := countRecord_ok hcount
  obtain ⟨hrecords, hdata⟩ := boundRecord_counts ⟨s.payload.counted r, s.haveRecord⟩ r
  refine ⟨by simp, ?_, fun h0 => Bool.noConfusion h0, ?_, ?_⟩
  · rw [List.map_append, List.map_singleton, summarize_concat, hs.summary, if_pos rfl]
    show some _ = some (boundRecord ⟨s.payload.counted r, s.haveRecord⟩ r).summary
    cases hhave : s.haveRecord with
    | false =>
      obtain ⟨hzero, htomb⟩ := hs.blank hhave
      rw [summary_first r hzero htomb]
      rfl
    | true =>
      rw [summary_add]
      rfl
  · show (boundRecord ⟨s.payload.counted r, s.haveRecord⟩ r).recordCount.toNat = _
    rw [hrecords, List.length_append, ← hs.count]
    show (s.payload.recordCount + 1).toNat = _
    have hone : (1 : UInt64).toNat = 1 := rfl
    rw [UInt64.toNat_add, hone, Nat.mod_eq_of_lt hlt]
    rfl
  · show (boundRecord ⟨s.payload.counted r, s.haveRecord⟩ r).dataBytes.toNat = _
    rw [hdata]
    exact hs.bytes

/-- The records of a block. -/
theorem Gathered.addRecords {s t : Staged} {ps rs : List DataSection.Payload} {bytes : Nat} (hs : Gathered s ps bytes)
    (h : rs.foldlM MetaSection.addRecord s = .ok t) : Gathered t (ps ++ rs) bytes := by
  induction rs generalizing s ps with
  | nil =>
    cases h
    rw [List.append_nil]
    exact hs
  | cons r rs ih =>
    rw [List.foldlM_cons] at h
    obtain ⟨s₁, hr, hrest⟩ := except_bind_ok h
    have hall := ih (hs.addRecord hr) hrest
    rw [List.append_assoc] at hall
    exact hall

/-- One more block. -/
theorem Gathered.addBlock {s t : Staged} {ps block : List DataSection.Payload} {bytes : Nat} (hs : Gathered s ps bytes)
    (h : MetaSection.addBlock s block = .ok t) :
    Gathered t (ps ++ block) (bytes + DataSection.blockDiskSize block) := by
  unfold MetaSection.addBlock at h
  split at h
  · cases h
  split at h
  · cases h
  next hsize =>
  have hblock : BLOCK_SIZE = 4096 := rfl
  split at h
  · cases h
  next dataBytes hadd =>
  have hsum := IndexSection.checkedAdd_eq_some hadd
  have hlt : dataBytes < 2 ^ 64 := by
    unfold checkedAdd at hadd
    split at hadd
    · cases hadd
    · omega
  have hbytes : (UInt64.ofNat dataBytes).toNat = bytes + DataSection.blockDiskSize block := by
    rw [UInt64.toNat_ofNat', Nat.mod_eq_of_lt hlt, hsum, hs.bytes]
  have hstart : Gathered { s with payload := { s.payload with dataBytes := UInt64.ofNat dataBytes } } ps
      (bytes + DataSection.blockDiskSize block) :=
    ⟨hs.have_iff, hs.summary, hs.blank, hs.count, hbytes⟩
  exact hstart.addRecords h

/-- **The loops of `rebuild`**: they gather all records and the sizes of all blocks. -/
theorem gather_blocks {s t : Staged} {ps : List DataSection.Payload} {blocks : List (List DataSection.Payload)}
    {bytes : Nat} (hs : Gathered s ps bytes) (h : blocks.foldlM MetaSection.addBlock s = .ok t) :
    Gathered t (ps ++ blocks.flatten) (bytes + (blocks.map DataSection.blockDiskSize).sum) := by
  induction blocks generalizing s ps bytes with
  | nil =>
    cases h
    rw [List.flatten_nil, List.append_nil]
    exact hs
  | cons b bs ih =>
    rw [List.foldlM_cons] at h
    obtain ⟨s₁, hb, hrest⟩ := except_bind_ok h
    have hall := ih (hs.addBlock hb) hrest
    rw [List.append_assoc, Nat.add_assoc] at hall
    exact hall

/-- What a valid payload says of its fields. -/
theorem Payload.validate_bounds {p : Payload} (h : p.validate = .ok ()) :
    p.tombstoneCount.toNat ≤ p.recordCount.toNat ∧ p.minSeqNum.toNat ≤ p.maxSeqNum.toNat ∧
      p.dataBytes.toNat ≤ p.dataBlockCount.toNat * BLOCK_SIZE ∧
        (p.recordCount ≠ 0 → p.minKey ≤ p.maxKey) := by
  unfold Payload.validate at h
  split at h
  · cases h
  split at h
  · cases h
  next htomb =>
  have htomb' : p.tombstoneCount.toNat ≤ p.recordCount.toNat := UInt64.le_iff_toNat_le.mp (UInt64.not_lt.mp htomb)
  split at h
  next hzero =>
    split at h
    · cases h
    next hcanonical =>
    simp only [not_or, not_not] at hcanonical
    obtain ⟨-, hmin, hmax, -, -, -, hbytes⟩ := hcanonical
    rw [hmin, hmax, hbytes]
    exact ⟨htomb', Nat.le_refl _, Nat.zero_le _, fun hne => absurd hzero hne⟩
  next hzero =>
    unfold Payload.validateNonempty at h
    split at h
    · cases h
    split at h
    · cases h
    split at h
    · cases h
    next hseq =>
    split at h
    · cases h
    next hkeys =>
    refine ⟨htomb', UInt64.le_iff_toNat_le.mp (UInt64.not_lt.mp hseq), ?_, fun _ =>
      IndexSection.compareKeys_gt_iff'.mp hkeys⟩
    unfold Payload.validateDataBytes at h
    dsimp only at h
    split at h
    next minimum maximum hmin hmax =>
      split at h
      · cases h
      next hbytes =>
      unfold checkedMul at hmax
      split at hmax
      · cases hmax
      · cases hmax
        omega
    · cases h

variable [Zlib]

/-- What a finished `rebuild` says of the blocks. -/
theorem rebuild_exact {blocks : List (List DataSection.Payload)} {index : IndexSection} {s : MetaSection}
    (h : rebuild blocks index = .ok s) :
    (blocks.flatten ≠ [] → summarize (blocks.flatten.map DataSection.Payload.toRecord) = some s.payload.summary) ∧
      (blocks.flatten = [] → s.payload = .zero) ∧ s.payload.recordCount.toNat = blocks.flatten.length ∧
      s.payload.dataBlockCount.toNat = blocks.length ∧
      s.payload.dataBytes.toNat = (blocks.map DataSection.blockDiskSize).sum := by
  obtain ⟨hcount, -, -, -, hindex, gathered, hgather, hpayload⟩ := rebuild_ok h
  have hblocks : s.payload.dataBlockCount.toNat = blocks.length := by
    unfold validateIndexConsistency at hindex
    split at hindex
    · cases hindex
    next heq => rw [not_not.mp heq, hcount]
  have hall := gather_blocks (gathered_start blocks.length) hgather
  rw [List.nil_append, Nat.zero_add] at hall
  cases hhave : gathered.haveRecord with
  | true =>
    have hne := hall.have_iff.mp hhave
    have hsummary := hall.summary
    rw [hhave, if_pos rfl] at hpayload hsummary
    rw [hpayload] at hblocks ⊢
    exact ⟨fun _ => hsummary, fun h0 => absurd h0 hne, hall.count, hblocks, hall.bytes⟩
  | false =>
    have hnil : blocks.flatten = [] := by
      by_contra hne
      rw [hall.have_iff.mpr hne] at hhave
      cases hhave
    rw [hhave] at hpayload
    have hzero : s.payload = .zero := hpayload
    rw [hzero] at hblocks ⊢
    have hempty : blocks = [] := List.eq_nil_of_length_eq_zero hblocks.symm
    rw [hempty]
    exact ⟨fun hne => absurd rfl hne, fun _ => rfl, rfl, rfl, rfl⟩

end MetaSection

/-! ## The metadata of a written table -/

/-- What `make_table_meta` reads from the sections of a table besides the summary of its records. -/
def SSTable.layout (t : SSTable) : TableLayout :=
  ⟨t.path, t.fileFooterSection.fileSize, t.metaSection.payload.dataBlockCount, t.metaSection.payload.dataBytes⟩

/-- `make_table_meta` on a table. -/
def SSTable.makeTableMeta (t : SSTable) (level : UInt32) : Except Status TableMeta :=
  Kvdb.makeTableMeta t.fileHeaderSection.tableId level t.layout t.metaSection.payload.summary

/-- The metadata is that of a table with these data blocks in a file of `fileSize` bytes; an empty table has no
least and greatest keys and sequence numbers. -/
structure TableMeta.Exact (m : TableMeta) (blocks : List (List DataSection.Payload)) (fileSize : Nat) : Prop where
  smallest : blocks.flatten ≠ [] → IsLeast {k | ∃ r ∈ blocks.flatten, r.key = k} m.smallestKey
  largest : blocks.flatten ≠ [] → IsGreatest {k | ∃ r ∈ blocks.flatten, r.key = k} m.largestKey
  minSeq : blocks.flatten ≠ [] → IsLeast {n | ∃ r ∈ blocks.flatten, r.seqNum.toNat = n} m.minSeq.toNat
  maxSeq : blocks.flatten ≠ [] → IsGreatest {n | ∃ r ∈ blocks.flatten, r.seqNum.toNat = n} m.maxSeq.toNat
  recordCount : m.recordCount.toNat = blocks.flatten.length
  tombstoneCount : m.tombstoneCount.toNat = blocks.flatten.countP fun r => r.type = RecType.tombstone.toU8
  dataBlockCount : m.dataBlockCount.toNat = blocks.length
  dataBytes : m.dataBytes.toNat = (blocks.map DataSection.blockDiskSize).sum
  fileSize : m.fileSize.toNat = fileSize

/-- Every key of the table lies inside the bounds. -/
theorem TableMeta.Exact.key_mem {m : TableMeta} {blocks : List (List DataSection.Payload)} {fileSize : Nat}
    (h : m.Exact blocks fileSize) {r : DataSection.Payload} (hr : r ∈ blocks.flatten) :
    m.smallestKey ≤ r.key ∧ r.key ≤ m.largestKey := by
  have hne : blocks.flatten ≠ [] := List.ne_nil_of_mem hr
  exact ⟨(h.smallest hne).2 ⟨r, hr, rfl⟩, (h.largest hne).2 ⟨r, hr, rfl⟩⟩

theorem countP_toRecord (ps : List DataSection.Payload) :
    (ps.map DataSection.Payload.toRecord).countP (fun r => r.type = .tombstone) =
      ps.countP fun r => r.type = RecType.tombstone.toU8 := by
  rw [List.countP_map]
  refine List.countP_congr fun p _ => ?_
  simpa using p.toRecord_tombstone

/-- The checks of `TableMeta::validate` that do not concern the lengths. -/
theorem TableMeta.validate_of_bounds {m : TableMeta}
    (hlen : m.path.length + m.smallestKey.size + m.largestKey.size ≤ MAX_TABLE_META_VARIABLE_BYTES)
    (hseq : m.minSeq.toNat ≤ m.maxSeq.toNat) (htomb : m.tombstoneCount.toNat ≤ m.recordCount.toNat)
    (hbytes : m.dataBytes.toNat ≤ m.fileSize.toNat) (hkeys : m.recordCount ≠ 0 → m.smallestKey ≤ m.largestKey) :
    m.validate = .ok () := by
  have hmax : MAX_TABLE_META_VARIABLE_BYTES = 65536 := rfl
  have hpath : (UInt32.ofNat m.path.length).toNat = m.path.length := by
    rw [UInt32.toNat_ofNat', Nat.mod_eq_of_lt (by omega)]
  have hnot : ∀ a b : UInt64, a.toNat ≤ b.toNat → ¬ a > b := fun a b hab hgt => by
    have := UInt64.lt_iff_toNat_lt.mp hgt
    omega
  have horder : m.recordCount ≠ 0 → ¬ m.largestKey.lt m.smallestKey = true := fun hne => by
    rw [ArenaEntry.lt_iff]
    exact not_lt.mpr (hkeys hne)
  unfold TableMeta.validate
  rw [checkedU32Size_ok (by omega), ok_bind, validateVariablePayloadSize, hpath, if_neg (by omega), ok_bind,
    if_neg (hnot _ _ hseq), if_neg (hnot _ _ htomb), if_neg (hnot _ _ hbytes), if_neg, if_neg]
  · rintro ⟨hne, -, -, hlt⟩
    exact horder hne hlt
  · rintro ⟨hne, hsmall, hlarge⟩
    -- an empty key is smaller than one that is not
    refine horder hne ?_
    have hnil : m.largestKey.bytes = [] := List.eq_nil_of_length_eq_zero hlarge
    unfold ArenaEntry.lt
    rw [hlarge, Nat.zero_min, hnil]
    simp only [List.take_zero, ArenaEntry.memcmp, decide_eq_true_eq]
    omega

section

variable [Zlib] {t t' : SSTable}

/-- The metadata of a finished table is exact. -/
theorem SSTable.Written.exact (h : t.Written t') {level : UInt32} {m : TableMeta}
    (hm : t'.makeTableMeta level = .ok m) : m.Exact t.dataBlocks t'.image.length := by
  obtain ⟨_, -, hm⟩ := except_bind_ok hm
  cases hm
  obtain ⟨hsummary, hempty, hcount, hblocks, hbytes⟩ := MetaSection.rebuild_exact h.metadata
  have hkeys := fun hne => summarize_keys (hsummary hne)
  have hseqs := fun hne => summarize_seqs (hsummary hne)
  refine ⟨fun hne => ⟨?_, ?_⟩, fun hne => ⟨?_, ?_⟩, fun hne => ⟨?_, ?_⟩, fun hne => ⟨?_, ?_⟩,
    hcount, ?_, hblocks, hbytes,
    h.fileSize⟩
  · obtain ⟨-, ⟨r, hr, heq⟩, -⟩ := hkeys hne
    obtain ⟨p, hp, rfl⟩ := List.mem_map.mp hr
    exact ⟨p, hp, heq.symm⟩
  · rintro k ⟨p, hp, rfl⟩
    exact ((hkeys hne).1 _ (List.mem_map_of_mem hp)).1
  · obtain ⟨-, -, r, hr, heq⟩ := hkeys hne
    obtain ⟨p, hp, rfl⟩ := List.mem_map.mp hr
    exact ⟨p, hp, heq.symm⟩
  · rintro k ⟨p, hp, rfl⟩
    exact ((hkeys hne).1 _ (List.mem_map_of_mem hp)).2
  · obtain ⟨-, ⟨r, hr, heq⟩, -⟩ := hseqs hne
    obtain ⟨p, hp, rfl⟩ := List.mem_map.mp hr
    exact ⟨p, hp, congrArg UInt64.toNat heq.symm⟩
  · rintro n ⟨p, hp, rfl⟩
    exact ((hseqs hne).1 _ (List.mem_map_of_mem hp)).1
  · obtain ⟨-, -, r, hr, heq⟩ := hseqs hne
    obtain ⟨p, hp, rfl⟩ := List.mem_map.mp hr
    exact ⟨p, hp, congrArg UInt64.toNat heq.symm⟩
  · rintro n ⟨p, hp, rfl⟩
    exact ((hseqs hne).1 _ (List.mem_map_of_mem hp)).2
  · show t'.metaSection.payload.tombstoneCount.toNat = _
    by_cases hne : t.dataBlocks.flatten = []
    · rw [hempty hne, hne]
      rfl
    · have htomb : t'.metaSection.payload.tombstoneCount = _ := summarize_tombstones (hsummary hne)
      have hle : (t.dataBlocks.flatten.countP fun r => r.type = RecType.tombstone.toU8) ≤
          t.dataBlocks.flatten.length :=
        List.countP_le_length
      have hlt := t'.metaSection.payload.recordCount.toNat_lt
      rw [htomb, countP_toRecord, UInt64.toNat_ofNat', Nat.mod_eq_of_lt (by omega)]

/-- `make_table_meta` fails on a finished table only when its path and bounds are too long. -/
theorem SSTable.Written.makeTableMeta_error (h : t.Written t') {level : UInt32} {e : Status}
    (he : t'.makeTableMeta level = .error e) :
    MAX_TABLE_META_VARIABLE_BYTES <
      t'.path.length + t'.metaSection.payload.minKey.size + t'.metaSection.payload.maxKey.size := by
  by_contra hshort
  obtain ⟨-, hlen, -, hvalid, -⟩ := MetaSection.rebuild_ok h.metadata
  obtain ⟨htomb, hseq, hbytes, hkeys⟩ := MetaSection.Payload.validate_bounds hvalid
  obtain ⟨-, -, -, hblocks, -⟩ := MetaSection.rebuild_exact h.metadata
  have hfits : t'.metaSection.payload.dataBytes.toNat ≤ t'.fileFooterSection.fileSize.toNat := by
    obtain ⟨f, hdirectory⟩ := h.directory
    have hcount : t'.fileFooterSection.dataBlockCount = UInt64.ofNat t.dataBlocks.length := by
      rw [hdirectory]
      rfl
    have hnat : t'.fileFooterSection.dataBlockCount.toNat = t.dataBlocks.length := by
      rw [hcount, UInt64.toNat_ofNat', Nat.mod_eq_of_lt hlen]
    have hlayout := h.layout
    have hend : t.dataBlocks.length * BLOCK_SIZE ≤ t'.fileFooterSection.indexOffset.toNat := by
      by_cases hzero : t'.fileFooterSection.dataBlockCount = 0
      · rw [hzero] at hnat
        have h0 : t.dataBlocks.length = 0 := hnat.symm
        rw [h0, Nat.zero_mul]
        exact Nat.zero_le _
      · obtain ⟨-, hsum⟩ := hlayout.data hzero
        rw [hnat] at hsum
        omega
    have h1 := hlayout.indexEnd
    have h2 := hlayout.bloomEnd
    have h3 := hlayout.metaEnd
    rw [hblocks] at hbytes
    rw [hlayout.size]
    omega
  have hok := @TableMeta.validate_of_bounds
    { tableId := t'.fileHeaderSection.tableId.toUInt64
      level
      path := t'.path
      minSeq := t'.metaSection.payload.minSeqNum
      maxSeq := t'.metaSection.payload.maxSeqNum
      fileSize := t'.fileFooterSection.fileSize
      recordCount := t'.metaSection.payload.recordCount
      tombstoneCount := t'.metaSection.payload.tombstoneCount
      dataBlockCount := t'.metaSection.payload.dataBlockCount
      dataBytes := t'.metaSection.payload.dataBytes
      smallestKey := t'.metaSection.payload.minKey
      largestKey := t'.metaSection.payload.maxKey } (Nat.not_lt.mp hshort) hseq htomb hfits hkeys
  unfold SSTable.makeTableMeta Kvdb.makeTableMeta at he
  simp only [SSTable.layout, MetaSection.Payload.summary] at he
  rw [hok] at he
  cases he

/-- **Table metadata is exact.**  What `make_table_meta` makes of a table that was written has the true bounds,
counts and sizes, so every key of the table lies inside its key range; it fails only when the path and the bounds are
too long for a manifest entry.  A manifest edit that was written, which it is only without padding, gives the metadata
back. -/
theorem makeTableMeta_exact {calls : TableCalls} {w w' : Writer Status} (hw : w.Synced) (ho : w.offset = 0)
    (h : t.write calls w = (.ok t', w')) (level : UInt32) :
    match t'.makeTableMeta level with
    | .error _ => MAX_TABLE_META_VARIABLE_BYTES <
        t.finalPath.length + t'.metaSection.payload.minKey.size + t'.metaSection.payload.maxKey.size
    | .ok m =>
      m.Exact t.dataBlocks w'.bytes.length ∧
      (∀ r ∈ t.dataBlocks.flatten, m.smallestKey ≤ r.key ∧ r.key ≤ m.largestKey) ∧
      ∀ (edit : VersionEdit) (v v' : Writer Status), m ∈ edit.newTables → v.Synced →
        edit.write v = (.ok (), v') →
        ∀ (file : ReadableFile) (rest : List UInt8), file.Sound → file.bytes = v'.bytes ++ rest →
          ∃ loaded offset, VersionEdit.load file v.offset file.bytes.length = .ok (loaded, offset) ∧
            m ∈ loaded.newTables := by
  obtain ⟨hwritten, hbytes⟩ := SSTable.write_ok hw ho h
  cases hm : t'.makeTableMeta level with
  | error e =>
    have herr := hwritten.makeTableMeta_error hm
    rw [hwritten.path] at herr
    exact herr
  | ok m =>
    have hexact := hwritten.exact hm
    refine ⟨hbytes ▸ hexact, fun r hr => hexact.key_mem hr, ?_⟩
    intro edit v v' hmem hv hedit file rest hf hfile
    obtain ⟨hvalid, hfit, -, hout⟩ := VersionEdit.write_ok hv hedit
    have hat : At file.bytes v.offset edit.record.flatten := by
      rw [hfile, hout, hv, List.append_assoc]
      unfold At
      rw [List.drop_left]
      exact List.prefix_append _ _
    exact ⟨edit, _, VersionEdit.load_record hvalid hf hfit hat, hmem⟩

end

theorem makeTableMeta_exact_fourRecords : let _ := documentedZlib
    ∃ t' w' m, twoBlockTable.write quietCalls ⟨[], 0, none, ⟨.ioError, ""⟩⟩ = (.ok t', w') ∧
      t'.makeTableMeta 0 = .ok m ∧ m.Exact twoBlockTable.dataBlocks w'.bytes.length := by
  intro
  have hready : SSTable.Ready quietCalls twoBlockTable := by constructor <;> decide
  have hw : (⟨[], 0, none, ⟨.ioError, ""⟩⟩ : Writer Status).Synced := rfl
  obtain ⟨t', w', hpayload, hwrite⟩ := twoBlockTable_writes hready (by decide) rfl
  have hexact := makeTableMeta_exact hw rfl hwrite 0
  cases hm : t'.makeTableMeta 0 with
  | error e =>
    -- the path and the bounds are too short for this
    rw [hm, hpayload] at hexact
    exact absurd (show 65536 < 1 + 0 + 1 from hexact) (by decide)
  | ok m =>
    rw [hm] at hexact
    exact ⟨t', w', m, hwrite, hm, hexact.1⟩

end Kvdb
