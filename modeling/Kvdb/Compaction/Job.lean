import Kvdb.Compaction.Plan
import Kvdb.Engine.TableFiles
import Kvdb.Manifest.Manifest

/-!
# The compaction job

`CompactionJob::run` (`core/compaction/compaction_job.cpp`): the inputs of a plan
are merged in internal order, the newest record of each key goes to the outputs,
which are rolled at the target size, and the result is one edit that adds the
outputs and deletes all inputs.  `KWay.mergeAll` is `MergeIterator`; an input
that cannot be read fails when it is opened.

A job that fails removes the outputs it had finished.
-/

namespace Kvdb

open Faulty

/-- `level_contains_table`. -/
def levelContainsTable (lm : LevelManager) (level : UInt32) (tableId : UInt64) : Bool :=
  (lm.tables level.toNat).any fun t => t.tableId == tableId

/-- `plan_is_current`. -/
def planIsCurrent (p : CompactionPlan) (lm : LevelManager) : Bool :=
  (p.sourceTables.all fun t => levelContainsTable lm p.sourceLevel t.tableId) &&
    p.overlappingTables.all fun t => levelContainsTable lm p.targetLevel t.tableId

/-- `is_bottommost_destination`: the levels behind the target, up to the last one, are empty. -/
def isBottommostDestination (lm : LevelManager) (targetLevel : UInt32) : Bool :=
  (lm.levels.drop (targetLevel.toNat + 1)).all List.isEmpty

/-- `compaction_keep_newest_record`. -/
def compactionKeepNewestRecord (type : RecType) (isBottommostLevel : Bool) : Bool :=
  !(decide (type = .tombstone) && isBottommostLevel)

/-- The first record of each key; what follows with the same key is an older version. -/
def newestRecords : Option ArenaEntry → List InternalRecord → List InternalRecord
  | _, [] => []
  | current, r :: rest =>
    if current = some r.key then newestRecords current rest else r :: newestRecords (some r.key) rest

/-- The variables of `run`. -/
structure JobState where
  store : TableStore
  nextOutputTableId : UInt64
  /-- the output in progress: its id and its records -/
  builder : Option (UInt32 × List InternalRecord) := none
  deletedTables : List DeletedTable := []
  newTables : List TableMeta := []

abbrev JobM := Prog JobState Status

namespace CompactionJob

/-- Run a program on the table files. -/
def onStore {α : Type} (m : Prog TableStore Status α) : JobM α := fun s =>
  match m s.store with
  | (o, store) => (o, { s with store })

/-- `add_input_table`. -/
def addInputTable (table : TableMeta) (level : UInt32) : JobM (List InternalRecord) := do
  ensure (decide (table.tableId.toNat ≤ 2 ^ 32 - 1))
    ⟨.invalidState, "SSTableManager currently supports only 32-bit input table IDs"⟩
  let s ← get
  let records ← lift (TableStore.openTable table.tableId.toUInt32 s.store.files)
  modify fun s => { s with deletedTables := s.deletedTables ++ [⟨level, table.tableId⟩] }
  pure records

/-- The loop over the tables of one level. -/
def addInputTables (level : UInt32) : List TableMeta → JobM (List (List InternalRecord))
  | [] => pure []
  | table :: tables => do
    let records ← addInputTable table level
    let rest ← addInputTables level tables
    pure (records :: rest)

/-- `start_new_output`, when no output is in progress. -/
def startNewOutput : JobM Unit := do
  let s ← get
  match s.builder with
  | some _ => pure ()
  | none =>
    ensure (decide (s.nextOutputTableId.toNat ≤ 2 ^ 32 - 1))
      ⟨.invalidState, "SSTableManager currently supports only 32-bit table IDs"⟩
    modify fun s =>
      { s with
        builder := some (s.nextOutputTableId.toUInt32, [])
        nextOutputTableId := s.nextOutputTableId + 1 }

variable [TableFormat]

/-- `SSTableStreamingBuilder::add`. -/
def add (r : InternalRecord) : JobM Unit := do
  let s ← get
  match s.builder with
  | none => pure ()
  | some (id, records) =>
    ensure (match records.getLast? with
      | none => true
      | some previous => !internalBefore r previous)
      ⟨.invalidArgument, "SSTable streaming input is not sorted by key ascending and sequence descending"⟩
    lift (TableFormat.appendRecord records r)
    modify fun s => { s with builder := some (id, records ++ [r]) }

/-- `finish_current_output`. -/
def finishCurrentOutput (targetLevel : UInt32) : JobM Unit := do
  let s ← get
  match s.builder with
  | none => pure ()
  | some (id, records) =>
    match summarize records with
    | none => modify fun s => { s with builder := none }
    | some summary =>
      let layout ← onStore (TableStore.write id records)
      let table ← lift (makeTableMeta id targetLevel layout summary)
      modify fun s => { s with newTables := s.newTables ++ [table], builder := none }

/-- The output in progress has reached the target size. -/
def isFull (s : JobState) (maxOutputFileSize : Nat) : Bool :=
  match s.builder with
  | none => false
  | some (_, records) =>
    !records.isEmpty && decide (TableFormat.approximateDiskSpace records ≥ maxOutputFileSize)

/-- The newest record of a key goes to the output in progress, unless it is dropped. -/
def addNewest (bottommost : Bool) (r : InternalRecord) : JobM Unit :=
  if compactionKeepNewestRecord r.type bottommost then do
    startNewOutput
    add r
  else pure ()

/-- One round of the merge loop. -/
def mergeRound (plan : CompactionPlan) (bottommost : Bool) (r : InternalRecord) : JobM Unit := do
  addNewest bottommost r
  let s ← get
  if isFull s plan.maxOutputFileSize then finishCurrentOutput plan.targetLevel else pure ()

/-- The merge loop. -/
def mergeLoop (plan : CompactionPlan) (bottommost : Bool) : List InternalRecord → JobM Unit
  | [] => pure ()
  | r :: rest => do
    mergeRound plan bottommost r
    mergeLoop plan bottommost rest

/-- The edit of a finished job. -/
def editOf (nextTableId : UInt64) (s : JobState) : VersionEdit where
  nextTableId := if s.nextOutputTableId ≠ nextTableId then some s.nextOutputTableId else none
  deletedTables := s.deletedTables
  newTables := s.newTables

/-- `run` between its first checks and its result. -/
def merge (plan : CompactionPlan) (lm : LevelManager) : JobM Unit := do
  let sources ← addInputTables plan.sourceLevel plan.sourceTables
  let targets ← addInputTables plan.targetLevel plan.overlappingTables
  let merged := KWay.mergeAll internalBefore (sources ++ targets)
  mergeLoop plan (isBottommostDestination lm plan.targetLevel) (newestRecords none merged)
  finishCurrentOutput plan.targetLevel

/-- `cleanup_finished_outputs`: errors are ignored. -/
def cleanupFinishedOutputs : List TableMeta → Prog TableStore Status Unit
  | [] => pure ()
  | table :: tables => do
    ignore (TableStore.remove table.tableId.toUInt32)
    cleanupFinishedOutputs tables

/-- `CompactionJob::run`. -/
def run (plan : CompactionPlan) (lm : LevelManager) (nextTableId : UInt64) :
    Prog TableStore Status (Option VersionEdit) := fun store =>
  if !plan.validate then (.err ⟨.corruption, "Compaction plan is not valid"⟩, store)
  else if !planIsCurrent plan lm then
    (.err ⟨.invalidState, "Compaction plan is stale; one or more input tables changed"⟩, store)
  else
    match merge plan lm { store, nextOutputTableId := nextTableId } with
    | (.ok _, s) =>
      (.ok (if s.deletedTables = [] ∧ s.newTables = [] then none else some (editOf nextTableId s)), s.store)
    | (.err e, s) =>
      match cleanupFinishedOutputs s.newTables s.store with
      | (.crash, store) => (.crash, store)
      | (_, store) => (.err e, store)
    | (.crash, s) => (.crash, s.store)

end CompactionJob

end Kvdb
