import Kvdb.Engine.MemTable
import Kvdb.SSTable.TableWriting

/-!
# Building a table

`SSTableBuilder::build` and `SSTableStreamingBuilder` (`core/sstable_infra/sstable_builder.cpp`)
feed records to `SSTable::append_record`, after a check of their order.  Either way the
data blocks of the table hold the records in order (`Built.packed`).
-/

namespace Kvdb

open Faulty Bytes DataSection

/-- `FileFooterSection()`. -/
def FileFooterSection.fresh [Zlib] : FileFooterSection :=
  let footer : FileFooterSection := ⟨FILE_FOOTER_MAGIC, LATEST_SSTABLE_VERSION, 0, 0, 0, 0, 0, 0, 0, 0, 0, 0, 0⟩
  { footer with footerCrc32 := footer.calculateCrc32 }

namespace SSTable

/-- The constructor of a table that is to be written. -/
def building [Zlib] (temporaryPath destinationPath : List UInt8) (tableId : UInt32) : SSTable where
  state := .building
  path := temporaryPath
  finalPath := destinationPath
  fileHeaderSection := .ofTableId tableId
  dataBlocks := []
  indexSection := .empty
  bloomSection := .ofPayload .blank
  metaSection := .ofPayload .zero
  fileFooterSection := .fresh

/-- `SSTable::append_record`. -/
def appendRecord [Zlib] (t : SSTable) (record : InternalRecord) : Except Status SSTable :=
  if t.state ≠ .building then
    .error ⟨.invalidState, "Cannot append a record to a loaded, published, or uninitialized SSTable"⟩
  else do
    let dataBlocks ← addPayload t.dataBlocks (.ofRecord record)
    pure { t with dataBlocks }

end SSTable

/-- `SSTableBuilder::build_impl`; no table for no records. -/
def SSTableBuilder.build [Zlib] (tableId : UInt32) (records : List InternalRecord) (path finalPath : List UInt8) :
    Except Status (Option SSTable) :=
  if records = [] then .ok none
  else if !validateRecords records then
    .error ⟨.invalidArgument, "SSTable input records are not sorted by key ascending and sequence descending"⟩
  else do
    let sstable ← records.foldlM SSTable.appendRecord (.building path finalPath tableId)
    pure (some sstable)

/-- `SSTableStreamingBuilder::add`. -/
def SSTableStreamingBuilder.add [Zlib] (t : SSTable) (record : InternalRecord) : Except Status SSTable :=
  match t.dataBlocks.getLast?.bind List.getLast? with
  | none => t.appendRecord record
  | some payload =>
    if internalBefore record payload.toRecord then
      .error ⟨.invalidArgument, "SSTable streaming input is not sorted by key ascending and sequence descending"⟩
    else t.appendRecord record

namespace SSTable

variable [Zlib]

/-- The tables that either builder makes of the records. -/
inductive Built (tableId : UInt32) (path finalPath : List UInt8) (records : List InternalRecord) (t : SSTable) : Prop
  | build (h : SSTableBuilder.build tableId records path finalPath = .ok (some t)) :
    Built tableId path finalPath records t
  | add (h : records.foldlM SSTableStreamingBuilder.add (.building path finalPath tableId) = .ok t) :
      Built tableId path finalPath records t

/-- A record that was appended is the last of the packed ones. -/
theorem appendRecord_ok {t t' : SSTable} {r : InternalRecord} (h : t.appendRecord r = .ok t') {ps : List Payload}
    (hpacked : Packed t.dataBlocks ps) :
    t' = { t with dataBlocks := t'.dataBlocks } ∧ Packed t'.dataBlocks (ps ++ [.ofRecord r]) := by
  unfold appendRecord at h
  split at h
  · cases h
  obtain ⟨blocks, hadd, h⟩ := except_bind_ok h
  cases h
  exact ⟨rfl, addPayload_packed hpacked hadd⟩

/-- The same for each record of a list. -/
theorem appendRecords_ok {step : SSTable → InternalRecord → Except Status SSTable}
    (hstep : ∀ t r t', step t r = .ok t' → t.appendRecord r = .ok t') {t t' : SSTable} {rs : List InternalRecord}
    (h : rs.foldlM step t = .ok t') {ps : List Payload} (hpacked : Packed t.dataBlocks ps) :
    t' = { t with dataBlocks := t'.dataBlocks } ∧ Packed t'.dataBlocks (ps ++ rs.map .ofRecord) := by
  induction rs generalizing t ps with
  | nil =>
    cases h
    rw [List.map_nil, List.append_nil]
    exact ⟨rfl, hpacked⟩
  | cons r rs ih =>
    rw [List.foldlM_cons] at h
    obtain ⟨t₁, hone, h⟩ := except_bind_ok h
    obtain ⟨hsame, hpacked₁⟩ := appendRecord_ok (hstep t r t₁ hone) hpacked
    obtain ⟨hsame', hpacked'⟩ := ih h hpacked₁
    rw [List.append_assoc] at hpacked'
    refine ⟨?_, hpacked'⟩
    rw [hsame', hsame]

theorem add_appendRecord {t t' : SSTable} {r : InternalRecord} (h : SSTableStreamingBuilder.add t r = .ok t') :
    t.appendRecord r = .ok t' := by
  unfold SSTableStreamingBuilder.add at h
  split at h
  · exact h
  · split at h
    · cases h
    · exact h

/-- What either builder leaves: the records in data blocks, and the rest as it was constructed. -/
theorem Built.packed {tableId : UInt32} {path finalPath : List UInt8} {rs : List InternalRecord} {t : SSTable}
    (h : Built tableId path finalPath rs t) :
    t = { building path finalPath tableId with dataBlocks := t.dataBlocks } ∧
      Packed t.dataBlocks (rs.map .ofRecord) := by
  cases h with
  | build h =>
    unfold SSTableBuilder.build at h
    split at h
    · cases h
    split at h
    · cases h
    obtain ⟨t₁, hall, h⟩ := except_bind_ok h
    cases h
    exact appendRecords_ok (fun _ _ _ h => h) hall Packed.nil
  | add h => exact appendRecords_ok (fun _ _ _ h => add_appendRecord h) h Packed.nil

end SSTable

end Kvdb
