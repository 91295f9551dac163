import Kvdb.SSTable.Limits

/-!
# Table files as bytes

The table format that the engine runs on: `SSTableBuilder` makes a table of the
records, `SSTable::write` puts it into a temporary file under `sstables/` and renames
it.  `tableFormat` is what the engine sees of this (`TableFormat`), `writeTable` the
table with the bytes of its file.

    writeTable dir id rs = ok (t, bytes)  ↔  TableFits rs
-/

namespace Kvdb

open Faulty Bytes

/-! ## Names of files -/

/-- The last digits of a number, as many as the width says. -/
def digits : Nat → Nat → List UInt8
  | 0, _ => []
  | width + 1, n => digits width (n / 10) ++ [UInt8.ofNat (48 + n % 10)]

/-- `std::format("{:09}", id)`. -/
def formatId (id : UInt32) : List UInt8 := if id.toNat < 10 ^ 9 then digits 9 id.toNat else digits 10 id.toNat

/-- The bytes of an ASCII text. -/
def asciiBytes (s : String) : List UInt8 := s.toList.map fun c => UInt8.ofNat c.toNat

/-- `operator/` of two paths, the second one relative and not empty. -/
def joinPath (dir name : List UInt8) : List UInt8 :=
  if dir = [] ∨ dir.getLast? = some 47 then dir ++ name else dir ++ 47 :: name

/-- `SSTableManager::make_table_path`. -/
def makeTablePath (tableId : UInt32) (dir : List UInt8) : List UInt8 :=
  joinPath dir (asciiBytes "table-" ++ (formatId tableId ++ asciiBytes ".sst"))

/-- `SSTableManager::make_tmp_table_path`. -/
def makeTmpTablePath (tableId : UInt32) (dir : List UInt8) : List UInt8 :=
  joinPath dir (asciiBytes "table-" ++ (formatId tableId ++ asciiBytes ".sst.tmp"))

@[simp] theorem length_digits (width n : Nat) : (digits width n).length = width := by
  induction width generalizing n with
  | zero => rfl
  | succ width ih => rw [digits, List.length_append, ih, List.length_singleton]

theorem digits_injective {width n m : Nat} (hn : n < 10 ^ width) (hm : m < 10 ^ width)
    (h : digits width n = digits width m) : n = m := by
  induction width generalizing n m with
  | zero => omega
  | succ width ih =>
    rw [Nat.pow_succ] at hn hm
    obtain ⟨hfront, hlast⟩ := List.append_inj' h rfl
    have hdiv := ih (n := n / 10) (m := m / 10) (by omega) (by omega) hfront
    have hdigit : (UInt8.ofNat (48 + n % 10)).toNat = (UInt8.ofNat (48 + m % 10)).toNat := by
      rw [List.singleton_inj.mp hlast]
    rw [UInt8.toNat_ofNat', UInt8.toNat_ofNat'] at hdigit
    omega

theorem formatId_injective {a b : UInt32} (h : formatId a = formatId b) : a = b := by
  have ha := a.toNat_lt
  have hb := b.toNat_lt
  have hlen := congrArg List.length h
  unfold formatId at h hlen
  refine UInt32.toNat_inj.mp ?_
  by_cases hsmall : a.toNat < 10 ^ 9
  · rw [if_pos hsmall] at h hlen
    by_cases hsmall' : b.toNat < 10 ^ 9
    · rw [if_pos hsmall'] at h
      exact digits_injective hsmall hsmall' h
    · rw [if_neg hsmall', length_digits, length_digits] at hlen
      omega
  · rw [if_neg hsmall] at h hlen
    by_cases hsmall' : b.toNat < 10 ^ 9
    · rw [if_pos hsmall', length_digits, length_digits] at hlen
      omega
    · rw [if_neg hsmall'] at h
      exact digits_injective (by omega) (by omega) h

theorem joinPath_injective {dir a b : List UInt8} (h : joinPath dir a = joinPath dir b) : a = b := by
  unfold joinPath at h
  split at h
  · exact List.append_cancel_left h
  · exact (List.cons.inj (List.append_cancel_left h)).2

theorem joinPath_ne_nil {dir name : List UInt8} (h : name ≠ []) : joinPath dir name ≠ [] := by
  unfold joinPath
  split
  · exact fun hnil => h (List.append_eq_nil_iff.mp hnil).2
  · simp

/-- Two tables never have one name. -/
theorem makeTablePath_injective {dir : List UInt8} {a b : UInt32} (h : makeTablePath a dir = makeTablePath b dir) :
    a = b := by
  have hname := List.append_cancel_left (joinPath_injective h)
  exact formatId_injective (List.append_cancel_right hname)

/-- The last byte of a name tells temporary files from published ones. -/
theorem makeTmpTablePath_ne (a b : UInt32) (dir : List UInt8) : makeTmpTablePath a dir ≠ makeTablePath b dir := by
  intro h
  have hname := congrArg List.getLast? (List.append_cancel_left (joinPath_injective h))
  have htmp : (asciiBytes ".sst.tmp").getLast? = some 112 := by decide
  have hfinal : (asciiBytes ".sst").getLast? = some 116 := by decide
  rw [List.getLast?_append, List.getLast?_append, htmp, hfinal, Option.some_or, Option.some_or] at hname
  exact absurd hname (by decide)

/-! ## Estimated sizes -/

namespace SSTableBuilder

/-- `saturating_add`. -/
def saturatingAdd (lhs rhs : UInt64) : UInt64 := if lhs > (UInt64.ofNat (2 ^ 64 - 1)) - rhs then UInt64.ofNat
    (2 ^ 64 - 1) else lhs + rhs

/-- `InternalRecord::disk_size`. -/
def diskSize (r : InternalRecord) : UInt32 := 25 + r.key.size32 + r.value.size32

/-- The variables of `approximate_disk_space`. -/
structure Estimate where
  recordsSize : UInt64 := 0
  indexSize : UInt64 := 0
  currentBlockSize : UInt64 := 0
  lastRecordInBlock : Option InternalRecord := none

/-- The index with the entry of a block that ends in this record. -/
def addEntry (indexSize : UInt64) (last : InternalRecord) : UInt64 :=
  saturatingAdd (saturatingAdd indexSize (UInt64.ofNat IndexSection.Payload.fixedDiskSize)) last.key.size32.toUInt64

/-- The record starts a new block. -/
def closeBlock (e : Estimate) (recordSize : UInt64) : Estimate :=
  if 0 < e.currentBlockSize ∧ recordSize ≤ UInt64.ofNat (2 ^ 64 - 1) - e.currentBlockSize ∧
      e.currentBlockSize + recordSize > UInt64.ofNat BLOCK_SIZE then
    { e with
      indexSize := match e.lastRecordInBlock with
        | none => e.indexSize
        | some last => addEntry e.indexSize last
      currentBlockSize := 0
      lastRecordInBlock := none }
  else e

/-- The loop of `approximate_disk_space`. -/
def estimateRecord (e : Estimate) (r : InternalRecord) : Estimate :=
  let recordSize := (diskSize r).toUInt64
  let closed := closeBlock { e with recordsSize := saturatingAdd e.recordsSize recordSize } recordSize
  { closed with
    currentBlockSize := saturatingAdd closed.currentBlockSize recordSize
    lastRecordInBlock := some r }

/-- The entry of the last block. -/
def finishEstimate (e : Estimate) : Estimate :=
  match e.lastRecordInBlock with
  | none => e
  | some last => if 0 < e.currentBlockSize then { e with indexSize := addEntry e.indexSize last } else e

/-- `SSTable::fixed_disk_size`. -/
def fixedDiskSize : Nat :=
  FileHeaderSection.diskSize + (MetaSection.Header.diskSize + MetaSection.Payload.fixedDiskSize) +
    BloomSection.diskSize +
    FileFooterSection.diskSize

/-- `SSTableBuilder::approximate_disk_space`. -/
def approximateDiskSpace (records : List InternalRecord) : UInt64 :=
  let e := finishEstimate (records.foldl estimateRecord {})
  saturatingAdd (saturatingAdd (saturatingAdd (UInt64.ofNat fixedDiskSize) (UInt64.ofNat IndexSection.Header.diskSize))
    e.recordsSize) e.indexSize

end SSTableBuilder

/-! ## The format -/

section

variable [Zlib]

/-- A file that is to be written, when no append fails. -/
def blankFile : Writer Status := ⟨[], 0, none, ⟨.ioError, ""⟩⟩

/-- `SSTableBuilder::build` and `SSTable::write`: the table and the bytes of its file. -/
def writeTable (dir : List UInt8) (tableId : UInt32) (records : List InternalRecord) :
    Except Status (SSTable × List UInt8) := do
  let t ← records.foldlM SSTable.appendRecord
    (.building (makeTmpTablePath tableId dir) (makeTablePath tableId dir) tableId)
  match t.write quietCalls blankFile with
  | (.ok t', w) => .ok (t', w.bytes)
  | (.err e, _) => .error e
  | (.crash, _) => .error ⟨.ioError, ""⟩

/-- `core/sstable_infra` and `core/engine/sstable.cpp` as the table format of an engine. -/
@[reducible] def tableFormat (dir : List UInt8) : TableFormat where
  appendRecord done record := do
    let t ← done.foldlM SSTable.appendRecord (.building [] [] 0)
    let _ ← t.appendRecord record
  approximateDiskSpace records := (SSTableBuilder.approximateDiskSpace records).toNat
  layout tableId records := do
    let (t, _) ← writeTable dir tableId records
    pure t.layout

end

/-! ## Writing a table -/

section

variable [Zlib] {dir : List UInt8} {tableId : UInt32} {rs : List InternalRecord}

theorem filled_ready (dir : List UInt8) (tableId : UInt32) (rs : List InternalRecord) :
    SSTable.Ready quietCalls (.filled tableId (makeTmpTablePath tableId dir) (makeTablePath tableId dir) rs) where
  state := rfl
  path := joinPath_ne_nil (by simp [asciiBytes])
  finalPath := joinPath_ne_nil (by simp [asciiBytes])
  differ := makeTmpTablePath_ne tableId tableId dir
  removeStale := rfl
  openWritableFile := rfl
  sync := rfl
  close := rfl
  durableRename := rfl
  syncParentDirectory := rfl

/-- What `writeTable` gives is what a builder and `SSTable::write` give. -/
theorem writeTable_ok {t : SSTable} {bytes : List UInt8} (hordered : Ordered rs) (hne : rs ≠ [])
    (h : writeTable dir tableId rs = .ok (t, bytes)) :
    ∃ built w, SSTableBuilder.build tableId rs (makeTmpTablePath tableId dir) (makeTablePath tableId dir) =
      .ok (some built) ∧
      built.write quietCalls blankFile = (.ok t, w) ∧ w.bytes = bytes := by
  obtain ⟨built, hbuilt, h⟩ := except_bind_ok h
  refine ⟨built, ?_⟩
  match hwrite : built.write quietCalls blankFile with
  | (.ok t', w) =>
    rw [hwrite] at h
    cases h
    refine ⟨w, ?_, rfl, rfl⟩
    rw [SSTableBuilder.build, if_neg hne, SSTable.validateRecords_of_ordered hordered, Bool.not_true,
      if_neg Bool.false_ne_true, hbuilt]
    rfl
  | (.err e, w) =>
    rw [hwrite] at h
    cases h
  | (.crash, w) =>
    rw [hwrite] at h
    cases h

/-- **A table is written** exactly when the format has room for it. -/
theorem writeTable_ok_iff (hne : rs ≠ []) (hordered : Ordered rs) (hvalid : ∀ r ∈ rs, r.type.isValid = true) :
    (∃ p, writeTable dir tableId rs = .ok p) ↔ TableFits rs := by
  have hready := filled_ready dir tableId rs
  have hw : blankFile.Synced := rfl
  rw [← SSTable.written_iff hne hordered hvalid hready hw rfl rfl]
  constructor
  · rintro ⟨⟨t, bytes⟩, h⟩
    obtain ⟨built, w, hbuilt, hwrite, -⟩ := writeTable_ok hordered hne h
    exact ⟨built, t, w, hbuilt, hwrite⟩
  · rintro ⟨built, t, w, hbuilt, hwrite⟩
    obtain ⟨hsize, hfilled⟩ := (SSTable.build_ok_iff hne hordered hvalid built).mp hbuilt
    have hall := (SSTable.appendRecords_fill (t := .building (makeTmpTablePath tableId dir)
        (makeTablePath tableId dir) tableId)
      rfl DataSection.Packed.nil hvalid (SSTable.pairwise_ofRecord hordered) built).mpr ⟨hsize, hfilled⟩
    refine ⟨(t, w.bytes), ?_⟩
    rw [writeTable, hall, ok_bind, hwrite]

end

end Kvdb
