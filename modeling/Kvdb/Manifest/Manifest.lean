import Kvdb.Engine.LevelManager
import Kvdb.Manifest.VersionEdit

/-!
# Manifest

`Manifest` (`core/engine/manifest.cpp`): staging of an edit, commit, recovery and
the operations around them.  `ManifestState` is the object with the file at its
path and the caller's `LevelManager`.  The file is written through this object
alone, so the writer's cursor stands at its end.  Each operation takes the
faults of its system calls; a write that fails keeps a prefix of its bytes.
-/

namespace Kvdb

open Faulty Bytes

def MANIFEST_MAGIC : UInt32 := 0x4D414E49
def MANIFEST_VERSION : UInt32 := 1

/-! ## File header -/

/-- `Manifest::Header`. -/
structure ManifestHeader where
  magic : UInt32
  version : UInt32
  headerSize : UInt32
  flags : UInt32
  reserved : UInt32
  crc32 : UInt32
deriving DecidableEq

namespace ManifestHeader

def diskSize : Nat := 6 * 4

/-- The fields under the checksum. -/
def checkedFields (h : ManifestHeader) : List (List UInt8) :=
  [u32Bytes h.magic, u32Bytes h.version, u32Bytes h.headerSize, u32Bytes h.flags, u32Bytes h.reserved]

/-- `Manifest::Header::compute_crc32`. -/
def computeCrc32 [Zlib] (h : ManifestHeader) : UInt32 := crc32Fields h.checkedFields

/-- A header with its default members and its checksum. -/
def create [Zlib] : ManifestHeader :=
  let h : ManifestHeader := ⟨MANIFEST_MAGIC, MANIFEST_VERSION, UInt32.ofNat diskSize, 0, 0, 0⟩
  { h with crc32 := h.computeCrc32 }

/-- `Manifest::Header::write`. -/
def write (h : ManifestHeader) : WriterM Status Unit := do
  checkManifestOffset
  writeU32Le h.magic MANIFEST_BLOCK_SIZE
  writeU32Le h.version MANIFEST_BLOCK_SIZE
  writeU32Le h.headerSize MANIFEST_BLOCK_SIZE
  writeU32Le h.flags MANIFEST_BLOCK_SIZE
  writeU32Le h.reserved MANIFEST_BLOCK_SIZE
  writeU32Le h.crc32 MANIFEST_BLOCK_SIZE

/-- `Manifest::Header::load`. -/
def load [Zlib] : FileReader ManifestHeader := do
  let magic ← readU32Le MANIFEST_BLOCK_SIZE
  Reader.ensure (magic == MANIFEST_MAGIC)
    ⟨.badMagic, "invalid manifest magic: expected=0x" ++ hex8 MANIFEST_MAGIC ++ " actual=0x" ++ hex8 magic⟩
  let version ← readU32Le MANIFEST_BLOCK_SIZE
  Reader.ensure (version == MANIFEST_VERSION)
    ⟨.unsupportedVersion, "unsupported manifest version " ++ toString version ++ "; supported version is "
      ++ toString MANIFEST_VERSION⟩
  let headerSize ← readU32Le MANIFEST_BLOCK_SIZE
  Reader.ensure (headerSize.toNat == diskSize)
    ⟨.invalidHeader, "manifest header size " ++ toString headerSize ++ "; expected " ++ toString diskSize⟩
  let flags ← readU32Le MANIFEST_BLOCK_SIZE
  let reserved ← readU32Le MANIFEST_BLOCK_SIZE
  Reader.ensure (flags == 0 && reserved == 0)
    ⟨.invalidHeader, "manifest v1 requires flags=0 and reserved=0; got flags=" ++ toString flags ++ " reserved="
      ++ toString reserved⟩
  let crc32 ← readU32Le MANIFEST_BLOCK_SIZE
  let h : ManifestHeader := ⟨magic, version, headerSize, flags, reserved, crc32⟩
  Reader.ensure (h.computeCrc32 == crc32)
    ⟨.checksumMismatch, "manifest header crc mismatch: expected=0x" ++ hex8 crc32 ++ " actual=0x"
      ++ hex8 h.computeCrc32⟩
  pure h

end ManifestHeader

/-! ## Staging -/

structure StagedCounters where
  nextTableId : UInt64 := 1
  currentWalId : UInt64 := 1
  nextSequenceNumber : UInt64 := 1
deriving DecidableEq

/-- The checks of `check_invariants` on one table of a level and the one before it. -/
def checkTable (c : StagedCounters) (level : Nat) (previous : Option TableMeta) (t : TableMeta) :
    Except Status Unit :=
  if t.tableId = 0 then .error ⟨.invariantViolation, "installed table id cannot be zero"⟩
  else if t.level.toNat ≠ level then
    .error ⟨.invariantViolation, "table " ++ toString t.tableId ++ " stored in level " ++ toString level
      ++ ", but meta says level " ++ toString t.level⟩
  else if t.tableId ≥ c.nextTableId then
    .error ⟨.invariantViolation, "table id " ++ toString t.tableId ++ " is not below next_table_id "
      ++ toString c.nextTableId⟩
  else if t.largestKey.lt t.smallestKey = true then
    .error ⟨.invariantViolation, "table " ++ toString t.tableId ++ " has invalid key range"⟩
  else
    match previous with
    | none => .ok ()
    | some p =>
      if level = 0 then
        if p.tableId ≤ t.tableId then .error ⟨.invariantViolation, "L0 tables are not ordered newest first"⟩
        else .ok ()
      else if p.largestKey.lt t.smallestKey = false then
        .error ⟨.invariantViolation, "tables " ++ toString p.tableId ++ " and " ++ toString t.tableId
          ++ " overlap or are out of order on level " ++ toString level⟩
      else .ok ()

/-- The tables of one level, from the one behind `previous` on. -/
def checkLevel (c : StagedCounters) (level : Nat) : Option TableMeta → List TableMeta → Except Status Unit
  | _, [] => .ok ()
  | previous, t :: ts => do
    checkTable c level previous t
    checkLevel c level (some t) ts

/-- The levels from `level` on. -/
def checkLevels (c : StagedCounters) : Nat → List (List TableMeta) → Except Status Unit
  | _, [] => .ok ()
  | level, ts :: levels => do
    checkLevel c level none ts
    checkLevels c (level + 1) levels

/-- `Manifest::check_invariants`. -/
def checkInvariants (lm : LevelManager) (c : StagedCounters) : Except Status Unit :=
  if c.nextTableId = 0 then .error ⟨.invariantViolation, "next_table_id must never be zero"⟩
  else if c.currentWalId = 0 then .error ⟨.invariantViolation, "current_wal_id must never be zero"⟩
  else if c.nextSequenceNumber = 0 then .error ⟨.invariantViolation, "next_sequence_number must never be zero"⟩
  else checkLevels c 0 lm.levels

/-- The ids of the tables an edit deletes or adds. -/
def VersionEdit.tableIds (e : VersionEdit) : List UInt64 :=
  e.deletedTables.map DeletedTable.tableId ++ e.newTables.map TableMeta.tableId

/-- `max_table_id_seen`. -/
def maxTableIdSeen (e : VersionEdit) : UInt64 := e.tableIds.foldl max 0

/-- The new `next_table_id` of `stage_apply`. -/
def stageTableId (e : VersionEdit) (next : UInt64) : Except Status UInt64 :=
  match e.nextTableId with
  | some value =>
    if value < next then
      .error ⟨.invariantViolation, "next_table_id regressed from " ++ toString next ++ " to " ++ toString value⟩
    else .ok value
  | none =>
    if maxTableIdSeen e ≥ next then
      if (maxTableIdSeen e).toNat = 2 ^ 64 - 1 then .error ⟨.invariantViolation, "table id space is exhausted"⟩
      else .ok (maxTableIdSeen e + 1)
    else .ok next

/-- A counter that an edit may only raise. -/
def stageCounter (value : Option UInt64) (name : String) (current : UInt64) : Except Status UInt64 :=
  match value with
  | some value =>
    if value < current then
      .error ⟨.invariantViolation, name ++ " regressed from " ++ toString current ++ " to " ++ toString value⟩
    else .ok value
  | none => .ok current

/-- `Manifest::stage_apply`. -/
def stageApply (lm : LevelManager) (c : StagedCounters) (e : VersionEdit) :
    Except Status (LevelManager × StagedCounters) := do
  e.validate
  let lm ← e.deletedTables.foldlM (fun lm d => lm.removeTable d.tableId d.level) lm
  let lm ← e.newTables.foldlM (fun lm t => lm.addTable t) lm
  let nextTableId ← stageTableId e c.nextTableId
  let nextSequenceNumber ← stageCounter e.nextSequenceNumber "next_sequence_number" c.nextSequenceNumber
  let currentWalId ← stageCounter e.currentWalId "current_wal_id" c.currentWalId
  checkInvariants lm ⟨nextTableId, currentWalId, nextSequenceNumber⟩
  pure (lm, ⟨nextTableId, currentWalId, nextSequenceNumber⟩)

/-! ## The object -/

structure Manifest where
  path : String
  counters : StagedCounters := {}
  /-- a writer is attached -/
  writable : Bool := false
  appendOffset : Nat := 0
  recoverableTail : Bool := false
  writePoisoned : Bool := false
deriving DecidableEq

structure ManifestState where
  manifest : Manifest
  /-- the file at the manifest's path, when there is one -/
  file : Option (List UInt8)
  levels : LevelManager
deriving DecidableEq

/-- The faults of the system calls of one operation. -/
structure ManifestFaults where
  /-- inspecting, opening or resizing the file -/
  access : Option Status := none
  /-- asking the writer for its position -/
  position : Option Status := none
  /-- the writes fail after this many bytes -/
  write : Option Nat := none
  writeError : Status := ⟨.writeFailed, "append"⟩
  sync : Option Status := none

abbrev ManifestM := Prog ManifestState Status

/-- The error of a system call, if it has one. -/
def failOn : Option Status → ManifestM Unit
  | none => pure ()
  | some e => fail e

/-- Change the object only. -/
def modifyManifest (f : Manifest → Manifest) : ManifestM Unit :=
  modify fun s => { s with manifest := f s.manifest }

/-- `write_poisoned_ = true; return status`. -/
def failPoisoned (e : Status) : ManifestM Unit := do
  modifyManifest fun m => { m with writePoisoned := true }
  fail e

/-- `sync`, which poisons the manifest when it fails. -/
def syncOrPoison : Option Status → ManifestM Unit
  | none => pure ()
  | some e => failPoisoned e

/-- Run a writer on the file at `append_offset_`. -/
def runWriter (io : ManifestFaults) (m : WriterM Status Unit) : ManifestM Unit := fun s =>
  let r := m ⟨s.file.getD [], s.manifest.appendOffset, io.write.map fun n => ⟨n, false⟩, io.writeError⟩
  (r.1, { s with file := some r.2.bytes, manifest := { s.manifest with appendOffset := r.2.offset } })

/-- The position check of `append_prepared`. -/
def checkPosition (io : ManifestFaults) : ManifestM Unit := do
  let s ← Faulty.get
  match io.position with
  | some e => failPoisoned e
  | none =>
    if (s.file.getD []).length ≠ s.manifest.appendOffset then
      failPoisoned ⟨.invalidOffset, "manifest append offset " ++ toString s.manifest.appendOffset
        ++ " differs from writable current position " ++ toString (s.file.getD []).length⟩
    else pure ()

namespace Manifest

variable [Zlib]

/-- `Manifest::append_prepared`. -/
def appendPrepared (io : ManifestFaults) (edit : VersionEdit) : ManifestM Unit := do
  let s ← Faulty.get
  ensure (!s.manifest.writePoisoned)
    ⟨.failedPrecondition, "manifest writer is poisoned; reload before writing"⟩
  ensure s.manifest.writable ⟨.failedPrecondition, "manifest is not open for writing"⟩
  checkPosition io
  orElse (runWriter io edit.write) failPoisoned

/-- `level_manager.swap(staged); publish_counters(staged_counters)`. -/
def publish (staged : LevelManager × StagedCounters) : ManifestM Unit :=
  modify fun s => { s with levels := staged.1, manifest := { s.manifest with counters := staged.2 } }

/-- `Manifest::commit`. -/
def commit (io : ManifestFaults) (edit : VersionEdit) : ManifestM Unit := do
  let s ← Faulty.get
  ensure (!s.manifest.writePoisoned)
    ⟨.failedPrecondition, "manifest writer is poisoned; reload before committing"⟩
  ensure s.manifest.writable ⟨.failedPrecondition, "manifest is not open for writing"⟩
  let staged ← lift (stageApply s.levels s.manifest.counters edit)
  let _ ← lift edit.prepare
  appendPrepared io edit
  syncOrPoison io.sync
  publish staged

/-- `Manifest::apply`. -/
def apply (edit : VersionEdit) : ManifestM Unit := do
  let s ← Faulty.get
  let staged ← lift (stageApply s.levels s.manifest.counters edit)
  publish staged

/-- `Manifest::sync`. -/
def sync (io : ManifestFaults) : ManifestM Unit := do
  let s ← Faulty.get
  ensure (!s.manifest.writePoisoned)
    ⟨.failedPrecondition, "manifest writer is poisoned; reload before syncing"⟩
  ensure s.manifest.writable ⟨.failedPrecondition, "manifest is not open for writing"⟩
  syncOrPoison io.sync

/-- `Manifest::allocate_table_id`. -/
def allocateTableId : ManifestM UInt64 := do
  let s ← Faulty.get
  ensure (s.manifest.counters.nextTableId.toNat != 2 ^ 64 - 1)
    ⟨.invariantViolation, "table id space is exhausted"⟩
  modifyManifest fun m => { m with counters := { m.counters with nextTableId := m.counters.nextTableId + 1 } }
  pure s.manifest.counters.nextTableId

/-- `Manifest::open_or_create`. -/
def openOrCreate (io : ManifestFaults) : ManifestM Unit := do
  let s ← Faulty.get
  ensure (s.manifest.path != "") ⟨.invalidArgument, "manifest path is empty"⟩
  failOn io.access
  ensure ((s.file.getD []).length == 0)
    ⟨.alreadyExists, "manifest already exists; recover it with Manifest::load"⟩
  modify fun s => { s with
    file := some (s.file.getD [])
    manifest := { s.manifest with
      writable := true, appendOffset := 0, recoverableTail := false, writePoisoned := false } }
  orElse (runWriter io ManifestHeader.create.write) failPoisoned
  syncOrPoison io.sync

/-- `std::filesystem::resize_file`. -/
def resize (b : List UInt8) (n : Nat) : List UInt8 := b.take n ++ List.replicate (n - b.length) 0

/-- The truncation of `prepare_for_append`. -/
def truncateTail (io : ManifestFaults) : ManifestM Unit := do
  failOn io.access
  modify fun s => { s with
    file := s.file.map fun b => resize b s.manifest.appendOffset
    manifest := { s.manifest with recoverableTail := false } }

/-- `Manifest::prepare_for_append`. -/
def prepareForAppend (io : ManifestFaults) : ManifestM Unit := do
  let s ← Faulty.get
  ensure (!s.manifest.writePoisoned)
    ⟨.failedPrecondition, "manifest has an uncertain partial write; reload before appending"⟩
  modifyManifest fun m => { m with writable := false }
  if s.manifest.recoverableTail then truncateTail io else pure ()

/-- `Manifest::attach_writer`, with a writer just opened at the end of the file, or none. -/
def attachWriter (io : ManifestFaults) (opened : Bool) : ManifestM Unit := do
  let s ← Faulty.get
  ensure (!s.manifest.writePoisoned)
    ⟨.failedPrecondition, "manifest has an uncertain partial write; reload before attaching a writer"⟩
  ensure (!s.manifest.recoverableTail)
    ⟨.failedPrecondition, "truncate the recoverable manifest tail before attaching a writer"⟩
  ensure opened ⟨.invalidArgument, "cannot attach a null manifest writer"⟩
  failOn io.position
  ensure ((s.file.getD []).length == s.manifest.appendOffset)
    ⟨.invalidOffset, "attached writer is at " ++ toString (s.file.getD []).length
      ++ ", manifest append offset is " ++ toString s.manifest.appendOffset⟩
  modify fun s => { s with file := some (s.file.getD []), manifest := { s.manifest with writable := true } }

/-! ## Recovery -/

/-- What the loop of `Manifest::load` recovers. -/
structure Recovery where
  appendOffset : Nat
  recoverableTail : Bool
  levels : LevelManager
  counters : StagedCounters

/-- The loop of `Manifest::load`; an edit is at least its header long. -/
def loadLoop (file : ReadableFile) (fileSize : Nat) :
    Nat → Nat → LevelManager → StagedCounters → Except Status Recovery
  | 0, _, _, _ => .error ⟨.internalError, "manifest loader out of fuel"⟩
  | fuel + 1, offset, lm, c =>
    if fileSize ≤ offset then .ok ⟨offset, false, lm, c⟩
    else
      match VersionEdit.load file offset fileSize with
      | .error e => if e.code = .unexpectedEOF then .ok ⟨offset, true, lm, c⟩ else .error e
      | .ok (edit, offset') =>
        match stageApply lm c edit with
        | .error e => .error e
        | .ok (lm', c') => loadLoop file fileSize fuel offset' lm' c'

/-- `Manifest::load` into the caller's level manager; `opened` is the opened file. -/
def load (path : String) (opened : Except Status ReadableFile) : Prog LevelManager Status Manifest := do
  let file ← lift opened
  let fileSize ← lift file.getFileSize
  ensure (decide (ManifestHeader.diskSize ≤ fileSize))
    ⟨.unexpectedEOF, "manifest is " ++ toString fileSize ++ " bytes; header requires "
      ++ toString ManifestHeader.diskSize⟩
  let header ← lift (ManifestHeader.load file 0)
  let lm ← Faulty.get
  let r ← lift (loadLoop file fileSize (fileSize + 1) header.2 (LevelManager.init lm.levelCount) {})
  lift (checkInvariants r.levels r.counters)
  modify fun _ => r.levels
  pure { path, counters := r.counters, appendOffset := r.appendOffset, recoverableTail := r.recoverableTail }

end Manifest

end Kvdb
