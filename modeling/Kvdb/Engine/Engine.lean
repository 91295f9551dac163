import Kvdb.Compaction.Job
import Kvdb.Engine.Lookup
import Kvdb.Engine.World

/-!
# Engine

`Engine` (`core/engine/engine.cpp`), function by function, over the world of its
files.  `EngineEnv` holds what the engine uses and does not decide: the table
format, the size a mutable table reports, and how many rounds the compaction
loop gets before it counts as not having returned.
-/

namespace Kvdb

open Faulty Bytes

class EngineEnv extends TableFormat where
  /-- `Driver::approximate_memory_usage`. -/
  memoryUsage : List InternalRecord → Nat
  /-- The loop of `maybe_compact_unlocked` is cut here. -/
  compactRounds : Nat

/-! ## Building a table -/

/-- `append_record` for each record behind those already in the table. -/
def appendRecords [TableFormat] : List InternalRecord → List InternalRecord → Except Status Unit
  | _, [] => .ok ()
  | done, record :: rest => do
    TableFormat.appendRecord done record
    appendRecords (done ++ [record]) rest

/-- `SSTableBuilder::build_impl`; no table for no records. -/
def buildTable [TableFormat] (records : List InternalRecord) : Except Status (Option (List InternalRecord)) :=
  if records = [] then .ok none
  else if !validateRecords records then
    .error ⟨.invalidArgument, "SSTable input records are not sorted by key ascending and sequence descending"⟩
  else do
    appendRecords [] records
    pure (some records)

namespace Engine

section

variable {φ ω : Type}

/-- `Engine::ensure_open`. -/
def ensureOpen : EngineM φ ω Unit := do
  let w ← Faulty.get
  ensure (!w.engine.closed) ⟨.useAfterClose, "database is closed"⟩
  ensure w.engine.opened ⟨.failedPrecondition, "database is not open"⟩

/-- The open WAL object; it is there in every open engine. -/
def withWal (k : WALHandle → EngineM φ ω Unit) : EngineM φ ω Unit := do
  let w ← Faulty.get
  match w.engine.wal with
  | none => fail ⟨.failedPrecondition, "WAL writer is not open"⟩
  | some wal => k wal

/-- `WALWriter::close`: the writer is closed also when its sync or close fails. -/
def closeWal (site : Site) : EngineM φ ω Unit := do
  let w ← Faulty.get
  match w.engine.wal with
  | none => pure ()
  | some wal =>
    if wal.isOpen then do
      modifyEngine fun e => { e with wal := some { wal with isOpen := false } }
      touch site
    else pure ()

/-- `WALWriter::offset` of the open WAL object. -/
def walOffset (w : World φ ω) : Nat :=
  match w.engine.wal with
  | none => 0
  | some wal => if wal.isOpen then ((w.disk.wals wal.walId).getD []).length else 0

/-! ## Open -/

/-- The database directory of `prepare_dirs`. -/
def prepareDbDir : EngineM φ ω Unit := do
  let w ← Faulty.get
  if w.disk.dir then
    ensure (!w.engine.options.errorIfExists) ⟨.alreadyExists, "database directory already exists"⟩
  else do
    ensure w.engine.options.createIfMissing ⟨.notFound, "database directory does not exist"⟩
    fileOp .openDirs fun d => { d with dir := true }

/-- `Engine::prepare_dirs`: the directory and the one for the tables in it. -/
def prepareDirs : EngineM φ ω Unit := do
  prepareDbDir
  touch .openDirs

/-- The replay of one recovered record. -/
def replayRecord (record : InternalRecord) : EngineM φ ω Unit := do
  let w ← Faulty.get
  let mem ← lift (w.engine.mem.apply record)
  modifyEngine fun e => { e with mem }
  ensure (record.seqNum.toNat != 2 ^ 64 - 1) ⟨.invariantViolation, "WAL sequence number space is exhausted"⟩
  modifyEngine fun e => { e with nextSequence := max e.nextSequence (record.seqNum + 1) }

def replayRecords : List InternalRecord → EngineM φ ω Unit
  | [] => pure ()
  | record :: rest => do
    replayRecord record
    replayRecords rest

/-- The objects of an engine that starts to open. -/
def start (e : Engine ω) : Engine ω :=
  { e with
    manifest := none
    levels := LevelManager.init e.options.compaction.maxLevels.toNat
    counters := {}
    mem := {} }

variable [Zlib]

/-- The rewrite of the recovered records. -/
def rewriteRecords (wal : WALHandle) : List InternalRecord → EngineM φ ω Unit
  | [] => pure ()
  | record :: rest => do
    writeWal .openWrite wal record
    rewriteRecords wal rest

/-- A failed rewrite: close the replacement and remove it. -/
def undoRewrite (id : UInt32) (e : Status) : EngineM φ ω Unit := do
  ignore (touch .openUndo)
  ignore (fileOp .openUndo fun d => d.setWal id none)
  fail e

variable [ManifestStore φ ω]

/-- `Engine::open_manifest`. -/
def openManifest : EngineM φ ω Unit := fun w =>
  let w' := (w.pop .openManifest).pop .openHeader
  match ManifestStore.openManifest w.engine.levels.levelCount (w.fault .openManifest) (w.fault .openHeader)
      w.disk.manifest with
  | (.ok (object, levels, counters), file) =>
    (.ok (), { w' with
      disk := { w.disk with manifest := file }
      engine := { w.engine with manifest := some object, levels, counters } })
  | (.err e, file) => (.err e, { w' with disk := { w.disk with manifest := file } })
  | (.crash, file) => (.crash, { w' with disk := { w.disk with manifest := file } })

/-- `open_wal` once the recovered records are in memory: they move to the next WAL. -/
def replaceWal (id : UInt32) (records : List InternalRecord) : EngineM φ ω Unit := do
  ensure (id.toNat != 2 ^ 32 - 1) ⟨.invariantViolation, "WAL ID space is exhausted"⟩
  let w ← Faulty.get
  fileOp .openRemove fun d => d.setWal (id + 1) none
  let replacement ← createWal .openReplace (id + 1)
    (match records with
      | [] => w.engine.nextSequence
      | record :: _ => record.seqNum)
  orElse (rewriteRecords replacement records) (undoRewrite (id + 1))
  syncWal .openSync replacement
  commitManifest .openCommit
    { currentWalId := some (id + 1).toUInt64
      nextSequenceNumber := some w.engine.nextSequence }
  modifyEngine fun e => { e with wal := some replacement, currentWalId := id + 1 }
  fileOp .openDrop fun d => d.setWal id none

/-- `open_wal` when the selected WAL exists. -/
def recoverWal (id : UInt32) (b : List UInt8) : EngineM φ ω Unit := do
  let recovered ← lift (WALLoader.load (ReadableFile.ofBytes b "wal") id).1
  ensure (recovered.ok && !recovered.hadCorruption)
    ⟨.corruption, if recovered.error = "" then "WAL recovery detected corruption" else recovered.error⟩
  replayRecords recovered.records
  replaceWal id recovered.records

/-- `open_wal` when the selected WAL is missing. -/
def createFirstWal (id : UInt32) (startSeq : UInt64) : EngineM φ ω Unit := do
  fileOp .openRemove fun d => d.setWal id none
  let wal ← createWal .openCreate id startSeq
  modifyEngine fun e => { e with wal := some wal }

/-- `Engine::open_wal`. -/
def openWal : EngineM φ ω Unit := do
  let w ← Faulty.get
  let walId := w.engine.counters.currentWalId
  ensure (walId != 0 && decide (walId.toNat ≤ 2 ^ 32 - 1))
    ⟨.corruption, "manifest WAL ID is outside the supported range"⟩
  modifyEngine fun e =>
    { e with currentWalId := walId.toUInt32, nextSequence := w.engine.counters.nextSequenceNumber }
  match w.disk.wals walId.toUInt32 with
  | none => createFirstWal walId.toUInt32 w.engine.counters.nextSequenceNumber
  | some b => recoverWal walId.toUInt32 b

/-- The part of `Engine::open` behind its first checks. -/
def openFiles : EngineM φ ω Unit := do
  let w ← Faulty.get
  lift w.engine.options.validate
  prepareDirs
  modifyEngine start
  openManifest
  openWal
  modifyEngine fun e => { e with opened := true }

/-- `Engine::open`. -/
def «open» : EngineM φ ω Unit := do
  let w ← Faulty.get
  if w.engine.opened then pure ()
  else if w.engine.closed then fail ⟨.useAfterClose, "database is closed"⟩
  else openFiles

/-- `Engine::close`. -/
def close : EngineM φ ω Unit := do
  let w ← Faulty.get
  if w.engine.closed then pure ()
  else if !w.engine.opened then modifyEngine fun e => { e with closed := true }
  else do
    withWal fun wal => syncWal .closeWal wal
    syncManifest .closeManifest
    closeWal .closeWal
    modifyEngine fun e => { e with opened := false, closed := true }

/-! ## Compaction -/

variable [EngineEnv]

/-- The removal of the inputs of a compaction. -/
def dropTables : List TableMeta → Prog TableStore Status Unit
  | [] => pure ()
  | table :: tables => do
    TableStore.remove table.tableId.toUInt32
    dropTables tables

/-- `run_compaction` once the job has an edit. -/
def installCompaction (plan : CompactionPlan) (edit : VersionEdit) : EngineM φ ω Unit := do
  commitManifest .compactCommit edit
  onTables .compactDrop (dropTables (plan.sourceTables ++ plan.overlappingTables))

/-- `Engine::run_compaction`. -/
def runCompaction (plan : CompactionPlan) : EngineM φ ω Unit := do
  let w ← Faulty.get
  let result ← onTables .compactTables (CompactionJob.run plan w.engine.levels w.engine.counters.nextTableId)
  match result with
  | none => pure ()
  | some edit => installCompaction plan edit

/-- The loop of `Engine::maybe_compact_unlocked`. -/
def compactLoop : Nat → EngineM φ ω Unit
  | 0 => do
    let w ← Faulty.get
    ensure (!shouldCompact w.engine.levels (schedulerOptions w.engine.options))
      ⟨.internalError, "compaction loop did not return"⟩
  | rounds + 1 => do
    let w ← Faulty.get
    if shouldCompact w.engine.levels (schedulerOptions w.engine.options) then do
      let plan ← lift (pickCompaction w.engine.levels (schedulerOptions w.engine.options))
      match plan with
      | none => pure ()
      | some plan => do
        runCompaction plan
        compactLoop rounds
    else pure ()

/-- `Engine::maybe_compact_unlocked`. -/
def maybeCompactUnlocked : EngineM φ ω Unit := do
  let w ← Faulty.get
  if w.engine.options.compaction.enableBackgroundCompaction then compactLoop EngineEnv.compactRounds
  else pure ()

/-! ## Flush -/

/-- The flushed generation leaves the memory. -/
def retireOldest (generationId : UInt64) : EngineM φ ω Unit := do
  let w ← Faulty.get
  match w.engine.mem.retireOldestImmutable generationId with
  | none => fail ⟨.invariantViolation, "flushed immutable MemTable generation changed unexpectedly"⟩
  | some mem => modifyEngine fun e => { e with mem }

/-- A failed commit of a flush: close the replacement and remove it. -/
def undoReplacement (id : UInt32) (e : Status) : EngineM φ ω Unit := do
  ignore (touch .flushUndo)
  ignore (fileOp .flushUndo fun d => d.setWal id none)
  fail e

/-- The flush of a generation that is not the last: the WAL stays. -/
def flushKeeping (oldest : ImmutableTable) (edit : VersionEdit) : EngineM φ ω Unit := do
  commitManifest .flushCommit edit
  retireOldest oldest.generationId

/-- The new WAL takes over and the old one goes. -/
def switchWal (replacement : WALHandle) (old : UInt32) : EngineM φ ω Unit := do
  closeWal .flushClose
  modifyEngine fun e => { e with wal := some replacement, currentWalId := replacement.walId }
  fileOp .flushDrop fun d => d.setWal old none

/-- The flush of the last generation: a new WAL is created and selected by the same edit. -/
def flushSwitching (oldest : ImmutableTable) (edit : VersionEdit) : EngineM φ ω Unit := do
  let w ← Faulty.get
  let old := w.engine.currentWalId
  ensure (old.toNat != 2 ^ 32 - 1) ⟨.invariantViolation, "WAL ID space is exhausted"⟩
  fileOp .flushRemove fun d => d.setWal (old + 1) none
  let replacement ← createWal .flushCreate (old + 1) w.engine.nextSequence
  orElse (commitManifest .flushSwitch { edit with currentWalId := some (old + 1).toUInt64 })
    (undoReplacement (old + 1))
  retireOldest oldest.generationId
  switchWal replacement old

/-- The edit of a flush, before the new WAL is put into it. -/
def flushEdit (table : TableMeta) (nextTableId nextSequence : UInt64) : VersionEdit where
  newTables := [table]
  nextTableId := some (nextTableId + 1)
  nextSequenceNumber := some nextSequence

/-- The table of a generation: built, written and described. -/
def writeOldest (id : UInt32) (records : List InternalRecord) : EngineM φ ω TableMeta := do
  let built ← lift (buildTable records)
  match built.bind summarize with
  | none => fail ⟨.invariantViolation, "non-empty immutable MemTable produced no SSTable"⟩
  | some summary => do
    let layout ← onTables .flushTable (TableStore.write id records)
    lift (makeTableMeta id 0 layout summary)

/-- `Engine::flush_oldest_immutable`, for the oldest generation. -/
def flushGeneration (oldest : ImmutableTable) : EngineM φ ω Unit := do
  let w ← Faulty.get
  let nextTableId := w.engine.counters.nextTableId
  ensure (nextTableId != 0 && decide (nextTableId.toNat ≤ 2 ^ 32 - 1))
    ⟨.invariantViolation, "table ID space is exhausted"⟩
  let table ← writeOldest nextTableId.toUInt32 oldest.table
  if w.engine.mem.immutableCount = 1 then
    flushSwitching oldest (flushEdit table nextTableId w.engine.nextSequence)
  else flushKeeping oldest (flushEdit table nextTableId w.engine.nextSequence)

/-- `Engine::flush_oldest_immutable`. -/
def flushOldestImmutable : EngineM φ ω Unit := do
  let w ← Faulty.get
  match w.engine.mem.immutableTables with
  | [] => pure ()
  | oldest :: _ => flushGeneration oldest

/-- The loop of `Engine::flush_unlocked`; each round retires a generation. -/
def flushLoop : Nat → EngineM φ ω Unit
  | 0 => pure ()
  | n + 1 => do
    let w ← Faulty.get
    if w.engine.mem.hasImmutable then do
      flushOldestImmutable
      flushLoop n
    else pure ()

/-- `Engine::flush_unlocked`. -/
def flushUnlocked : EngineM φ ω Unit := do
  ensureOpen
  modifyEngine fun e => { e with mem := e.mem.freezeMutable }
  let w ← Faulty.get
  flushLoop w.engine.mem.immutableCount
  maybeCompactUnlocked

/-- `Engine::maybe_flush_unlocked`. -/
def maybeFlushUnlocked : EngineM φ ω Unit := do
  let w ← Faulty.get
  if decide (EngineEnv.memoryUsage w.engine.mem.mutableTable ≥ w.engine.options.memtable.sizeLimit) ||
      decide (walOffset w ≥ w.engine.options.wal.fileSizeLimit) then
    flushUnlocked
  else pure ()

/-! ## Calls -/

/-- `ArenaEntry::make_entry`. -/
def makeEntry (bytes : List UInt8) : Except Status ArenaEntry :=
  match ArenaEntry.makeEntry bytes with
  | some e => .ok e
  | none => .error ⟨.allocationTooLarge, "Allocation size exceeds uint32_t limit"⟩

/-- `MemTable::apply`, which may fail for want of memory. -/
def applyRecord (record : InternalRecord) : EngineM φ ω Unit := do
  touch .putApply
  let w ← Faulty.get
  let mem ← lift (w.engine.mem.apply record)
  modifyEngine fun e => { e with mem }

/-- `options_.wal.sync_on_write`. -/
def syncOnWrite : EngineM φ ω Unit := do
  let w ← Faulty.get
  if w.engine.options.wal.syncOnWrite then withWal fun wal => syncWal .putSync wal else pure ()

/-- `put_impl` once it has its record. -/
def writeRecord (record : InternalRecord) : EngineM φ ω Unit := do
  withWal fun wal => writeWal .putAppend wal record
  syncOnWrite
  applyRecord record
  modifyEngine fun e => { e with nextSequence := e.nextSequence + 1 }
  maybeFlushUnlocked

/-- `Engine::put_impl`. -/
def putImpl (key value : List UInt8) (type : RecType) : EngineM φ ω Unit := do
  ensureOpen
  ensure type.isValid ⟨.invalidArgument, "invalid record type"⟩
  let w ← Faulty.get
  ensure (w.engine.nextSequence.toNat != 2 ^ 64 - 1)
    ⟨.invariantViolation, "sequence number space is exhausted"⟩
  let keyEntry ← lift (makeEntry key)
  let valueEntry ← lift (if type = .tombstone then .ok .empty else makeEntry value)
  writeRecord ⟨keyEntry, valueEntry, type, w.engine.nextSequence⟩

/-- `Engine::put`. -/
def put (key value : List UInt8) : EngineM φ ω Unit := putImpl key value .put

/-- `Engine::remove`. -/
def remove (key : List UInt8) : EngineM φ ω Unit := putImpl key [] .tombstone

/-- `Engine::flush`. -/
def flush : EngineM φ ω Unit := flushUnlocked

/-- The loop of `Engine::compact_range` over the source levels. -/
def compactLevels (smallest largest : ArenaEntry) : List Nat → EngineM φ ω Unit
  | [] => pure ()
  | level :: rest => do
    let w ← Faulty.get
    let plan := manualPlan w.engine.levels (schedulerOptions w.engine.options) (UInt32.ofNat level) smallest largest
    if plan.sourceTables = [] then compactLevels smallest largest rest
    else do
      ensure plan.validate ⟨.invariantViolation, "manual compaction produced an invalid plan"⟩
      runCompaction plan
      compactLevels smallest largest rest

/-- `compact_range` behind its size checks. -/
def compactEntries (smallest largest : ArenaEntry) : EngineM φ ω Unit := do
  flushUnlocked
  ensure (!largest.lt smallest) ⟨.invalidArgument, "compaction range end precedes its begin"⟩
  let w ← Faulty.get
  compactLevels smallest largest (List.range (w.engine.levels.levelCount - 1))

/-- `Engine::compact_range`. -/
def compactRange (first last : List UInt8) : EngineM φ ω Unit :=
  match ArenaEntry.makeEntry first, ArenaEntry.makeEntry last with
  | some smallest, some largest => compactEntries smallest largest
  | _, _ => fail ⟨.invalidArgument, "compaction range key is too large"⟩

/-- Close the engine and open the database with a new one. -/
def reopen (options : DBOptions) : EngineM φ ω Unit := do
  close
  modify fun w => { w with engine := { options } }
  «open»

/-- `Engine::get`. -/
def get (w : World φ ω) (key : List UInt8) : Except Status (Option (List UInt8)) :=
  match (ensureOpen w).1 with
  | .err e => .error e
  | _ => lookup w.engine.mem w.engine.levels w.disk.tables key

end

end Engine

end Kvdb
