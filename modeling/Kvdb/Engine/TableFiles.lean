import Kvdb.Engine.MemTable
import Kvdb.Engine.TableMeta
import Kvdb.Lib.Prog

/-!
# Table files

What the engine and the compaction job see of the tables on disk: a published
table file is the list of its records under its 32-bit id.  `TableFormat` is what
they use of the byte format (`core/engine/sstable.cpp`): which records fit into
one table, how big it is estimated, and the sizes a written table reports.
Nothing is assumed about it.

The metadata that the manifest keeps of a table is derived from its records
(`MetaSection::rebuild`, `make_table_meta`): `makeTableMeta`.
-/

namespace Kvdb

open Faulty

/-- What a written table reports besides its records. -/
structure TableLayout where
  path : List UInt8
  fileSize : UInt64
  dataBlockCount : UInt64
  dataBytes : UInt64
deriving DecidableEq

class TableFormat where
  /-- `SSTable::append_record` on a table with these records. -/
  appendRecord : List InternalRecord → InternalRecord → Except Status Unit
  /-- `SSTableBuilder::approximate_disk_space`. -/
  approximateDiskSpace : List InternalRecord → Nat
  /-- The sections that `SSTable::write` derives and the sizes it reports. -/
  layout : UInt32 → List InternalRecord → Except Status TableLayout

/-! ## Faults -/

/-- How a file operation ends: as it should, with an error, or with the loss of the process.
`reached` says how much of it reached the disk; an operation without parts took effect when it
is not zero. -/
inductive Fault where
  | none
  | err (reached : Nat) (e : Status)
  | crash (reached : Nat)
deriving DecidableEq

structure TableStore where
  /-- the published tables, by the number in their name -/
  files : UInt32 → Option (List InternalRecord)
  /-- how the next operations on table files end; none of them fails when the list is empty -/
  faults : List Fault

namespace TableStore

def setFile (s : TableStore) (id : UInt32) (records : Option (List InternalRecord)) : TableStore :=
  { s with files := Function.update s.files id records }

/-- An operation on table files that is done at once: publishing a table by renaming it, or
removing one. -/
def fileOp (f : TableStore → TableStore) : Prog TableStore Status Unit := fun s =>
  match s.faults with
  | [] => (.ok (), f s)
  | .none :: faults => (.ok (), f { s with faults })
  | .err reached e :: faults => (.err e, if reached = 0 then { s with faults } else f { s with faults })
  | .crash reached :: faults => (.crash, if reached = 0 then { s with faults } else f { s with faults })

/-- `SSTable::write`: the temporary file, its sync and the rename. -/
def write [TableFormat] (id : UInt32) (records : List InternalRecord) : Prog TableStore Status TableLayout := do
  let layout ← lift (TableFormat.layout id records)
  fileOp fun s => s.setFile id (some records)
  pure layout

/-- `remove_if_present` on a table file. -/
def remove (id : UInt32) : Prog TableStore Status Unit := fileOp fun s => s.setFile id none

/-- `open_readable_file` and `SSTable::load`. -/
def openTable (id : UInt32) (files : UInt32 → Option (List InternalRecord)) : Except Status (List InternalRecord) :=
  match files id with
  | some records => .ok records
  | none => .error ⟨.openFailed, "open readable file failed for table " ++ toString id⟩

end TableStore

/-! ## Metadata -/

/-- What `MetaSection::rebuild` gathers from the records. -/
structure RecordSummary where
  recordCount : UInt64
  tombstoneCount : UInt64
  minSeqNum : UInt64
  maxSeqNum : UInt64
  minKey : ArenaEntry
  maxKey : ArenaEntry
deriving DecidableEq

namespace RecordSummary

/-- The summary of the first record. -/
def first (r : InternalRecord) : RecordSummary :=
  ⟨1, if r.type = .tombstone then 1 else 0, r.seqNum, r.seqNum, r.key, r.key⟩

/-- One more record. -/
def add (s : RecordSummary) (r : InternalRecord) : RecordSummary where
  recordCount := s.recordCount + 1
  tombstoneCount := if r.type = .tombstone then s.tombstoneCount + 1 else s.tombstoneCount
  minSeqNum := min s.minSeqNum r.seqNum
  maxSeqNum := max s.maxSeqNum r.seqNum
  minKey := if r.key.lt s.minKey then r.key else s.minKey
  maxKey := if s.maxKey.lt r.key then r.key else s.maxKey

end RecordSummary

/-- The summary of a table; an empty one has none. -/
def summarize : List InternalRecord → Option RecordSummary
  | [] => none
  | r :: rs => some (rs.foldl RecordSummary.add (.first r))

/-- `make_table_meta`. -/
def makeTableMeta (tableId : UInt32) (level : UInt32) (layout : TableLayout) (s : RecordSummary) :
    Except Status TableMeta := do
  let table : TableMeta :=
    { tableId := tableId.toUInt64
      level
      path := layout.path
      minSeq := s.minSeqNum
      maxSeq := s.maxSeqNum
      fileSize := layout.fileSize
      recordCount := s.recordCount
      tombstoneCount := s.tombstoneCount
      dataBlockCount := layout.dataBlockCount
      dataBytes := layout.dataBytes
      smallestKey := s.minKey
      largestKey := s.maxKey }
  table.validate
  pure table

/-! ## Summaries -/

theorem RecordSummary.add_keys (s : RecordSummary) (r : InternalRecord) :
    (s.add r).minKey = min s.minKey r.key ∧ (s.add r).maxKey = max s.maxKey r.key := by
  constructor
  · show (if r.key.lt s.minKey = true then r.key else s.minKey) = _
    by_cases h : r.key < s.minKey
    · rw [if_pos ((ArenaEntry.lt_iff _ _).mpr h), min_eq_right h.le]
    · rw [if_neg (by rwa [ArenaEntry.lt_iff]), min_eq_left (not_lt.mp h)]
  · show (if s.maxKey.lt r.key = true then r.key else s.maxKey) = _
    by_cases h : s.maxKey < r.key
    · rw [if_pos ((ArenaEntry.lt_iff _ _).mpr h), max_eq_right h.le]
    · rw [if_neg (by rwa [ArenaEntry.lt_iff]), max_eq_left (not_lt.mp h)]

/-- The keys of a summary are keys of the records, and bounds on them. -/
theorem foldl_add_keys (rs : List InternalRecord) (s : RecordSummary) :
    ((rs.foldl RecordSummary.add s).minKey ≤ s.minKey ∧ s.maxKey ≤ (rs.foldl RecordSummary.add s).maxKey) ∧
      (∀ r ∈ rs, (rs.foldl RecordSummary.add s).minKey ≤ r.key ∧
        r.key ≤ (rs.foldl RecordSummary.add s).maxKey) ∧
      ((rs.foldl RecordSummary.add s).minKey = s.minKey ∨ ∃ r ∈ rs,
        (rs.foldl RecordSummary.add s).minKey = r.key) ∧
      ((rs.foldl RecordSummary.add s).maxKey = s.maxKey ∨
        ∃ r ∈ rs, (rs.foldl RecordSummary.add s).maxKey = r.key) := by
  induction rs generalizing s with
  | nil => exact ⟨⟨le_refl _, le_refl _⟩, by simp, .inl rfl, .inl rfl⟩
  | cons r rs ih =>
    obtain ⟨⟨hlow, hhigh⟩, hin, hfrom, hfrom'⟩ := ih (s.add r)
    obtain ⟨hmin, hmax⟩ := s.add_keys r
    rw [hmin] at hlow hfrom
    rw [hmax] at hhigh hfrom'
    obtain ⟨hlow1, hlow2⟩ := le_min_iff.mp hlow
    obtain ⟨hhigh1, hhigh2⟩ := max_le_iff.mp hhigh
    rw [List.foldl_cons]
    refine ⟨⟨hlow1, hhigh1⟩, ?_, ?_, ?_⟩
    · intro x hx
      rcases List.mem_cons.mp hx with rfl | hx
      · exact ⟨hlow2, hhigh2⟩
      · exact hin x hx
    · rcases hfrom with heq | ⟨x, hx, heq⟩
      · rcases min_choice s.minKey r.key with hm | hm
        · exact .inl (heq.trans hm)
        · exact .inr ⟨r, by simp, heq.trans hm⟩
      · exact .inr ⟨x, by simp [hx], heq⟩
    · rcases hfrom' with heq | ⟨x, hx, heq⟩
      · rcases max_choice s.maxKey r.key with hm | hm
        · exact .inl (heq.trans hm)
        · exact .inr ⟨r, by simp, heq.trans hm⟩
      · exact .inr ⟨x, by simp [hx], heq⟩

theorem summarize_keys {rs : List InternalRecord} {s : RecordSummary} (h : summarize rs = some s) :
    (∀ r ∈ rs, s.minKey ≤ r.key ∧ r.key ≤ s.maxKey) ∧ (∃ r ∈ rs, s.minKey = r.key) ∧
      ∃ r ∈ rs, s.maxKey = r.key := by
  cases rs with
  | nil => cases h
  | cons r rs =>
    cases h
    obtain ⟨⟨hlow, hhigh⟩, hin, hfrom, hfrom'⟩ := foldl_add_keys rs (.first r)
    refine ⟨fun x hx => ?_, ?_, ?_⟩
    · rcases List.mem_cons.mp hx with rfl | hx
      · exact ⟨hlow, hhigh⟩
      · exact hin x hx
    · rcases hfrom with heq | ⟨x, hx, heq⟩
      · exact ⟨r, by simp, heq⟩
      · exact ⟨x, by simp [hx], heq⟩
    · rcases hfrom' with heq | ⟨x, hx, heq⟩
      · exact ⟨r, by simp, heq⟩
      · exact ⟨x, by simp [hx], heq⟩

theorem makeTableMeta_ok {tableId level : UInt32} {layout : TableLayout} {s : RecordSummary} {t : TableMeta}
    (h : makeTableMeta tableId level layout s = .ok t) :
    t.tableId = tableId.toUInt64 ∧ t.level = level ∧ t.smallestKey = s.minKey ∧ t.largestKey = s.maxKey := by
  obtain ⟨_, -, h⟩ := except_bind_ok h
  cases h
  exact ⟨rfl, rfl, rfl, rfl⟩

/-! ## The files of installed tables -/

/-- A table file as its metadata describes it: it is there under the table's id, in internal order,
and its smallest and largest keys are those of the metadata. -/
structure Stored (files : UInt32 → Option (List InternalRecord)) (t : TableMeta) (rs : List InternalRecord) :
    Prop where
  id_lt : t.tableId.toNat < 2 ^ 32
  file : files t.tableId.toUInt32 = some rs
  ordered : Ordered rs
  bounds : ∃ s, summarize rs = some s ∧ t.smallestKey = s.minKey ∧ t.largestKey = s.maxKey

namespace Stored

variable {files files' : UInt32 → Option (List InternalRecord)} {t : TableMeta} {rs rs' : List InternalRecord}

theorem key_mem (h : Stored files t rs) {r : InternalRecord} (hr : r ∈ rs) :
    t.smallestKey ≤ r.key ∧ r.key ≤ t.largestKey := by
  obtain ⟨s, hs, hmin, hmax⟩ := h.bounds
  rw [hmin, hmax]
  exact (summarize_keys hs).1 r hr

theorem unique (h : Stored files t rs) (h' : Stored files t rs') : rs = rs' := by
  have heq := h.file.symm.trans h'.file
  exact Option.some.inj heq

theorem congr (h : Stored files t rs) (heq : files' t.tableId.toUInt32 = files t.tableId.toUInt32) :
    Stored files' t rs :=
  { h with file := heq.trans h.file }

theorem openTable (h : Stored files t rs) : TableStore.openTable t.tableId.toUInt32 files = .ok rs := by
  rw [TableStore.openTable, h.file]

end Stored

end Kvdb
