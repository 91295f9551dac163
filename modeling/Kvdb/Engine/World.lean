import Kvdb.Engine.Options
import Kvdb.Engine.TableFiles
import Kvdb.Manifest.Replay
import Kvdb.Wal.Log

/-!
# The engine's world

What `Engine` (`core/engine/engine.cpp`) keeps in memory and what it finds on
disk.  The WAL files are bytes, the table files are lists of records, and the
manifest is either of two stores (`ManifestStore`):

* `List UInt8`: the bytes of the file, through the operations of `Manifest`;
* `EditLog`: the edits in the file.  An edit is there or it is not; what a torn
  edit leaves behind is dropped by the next load of the bytes.

Each file operation of the engine belongs to a `Site`, and each site has its own
list of faults: how the next operations there end.  What an operation did
before it failed or the process was lost stays done.
-/

namespace Kvdb

open Faulty Bytes

/-! ## Manifest stores -/

/-- The manifest's file, the object it is written through, and the version in memory. -/
structure ManifestView (φ ω : Type) where
  file : Option φ
  object : ω
  levels : LevelManager
  counters : StagedCounters

class ManifestStore (φ : Type) (ω : outParam Type) where
  /-- `Engine::open_manifest` for a number of levels; the faults are those of opening the file
  and of writing the header of a new one. -/
  openManifest : Nat → Fault → Fault → Prog (Option φ) Status (ω × LevelManager × StagedCounters)
  commit : Fault → VersionEdit → Prog (ManifestView φ ω) Status Unit
  sync : Fault → Prog (ManifestView φ ω) Status Unit

/-- The outcome of an operation whose process may be lost in it. -/
def Fault.outcome {α : Type} : Fault → Outcome Status α → Outcome Status α
  | .crash _, _ => .crash
  | _, o => o

/-- The faults of one append and its sync. -/
def Fault.io : Fault → ManifestFaults
  | .none => {}
  | .err reached e => { write := some reached, writeError := e, sync := some e }
  | .crash reached => { write := some reached, sync := some ⟨.ioError, "process lost"⟩ }

namespace ByteStore

variable [Zlib]

def PATH : String := "MANIFEST"

/-- `Manifest::prepare_for_append`, `open_writable_file` and `Manifest::attach_writer`. -/
def attach (access : Fault) : ManifestM Unit := fun s =>
  match access with
  | .none => (Manifest.prepareForAppend {} >>= fun _ => Manifest.attachWriter {} true) s
  | .err _ e => (.err e, s)
  | .crash reached => (.crash, if reached = 0 then s else (Manifest.prepareForAppend {} s).2)

/-- `Manifest::load` and the preparation for writing. -/
def recover (levelCount : Nat) (access : Fault) (b : List UInt8) :
    Outcome Status (Manifest × LevelManager × StagedCounters) × Option (List UInt8) :=
  match Manifest.load PATH (.ok (ReadableFile.ofBytes b PATH)) (LevelManager.init levelCount) with
  | (.ok m, lm) =>
    match attach access ⟨m, some b, lm⟩ with
    | (.ok _, s) => (.ok (s.manifest, s.levels, s.manifest.counters), s.file)
    | (.err e, s) => (.err e, s.file)
    | (.crash, s) => (.crash, s.file)
  | (.err e, _) => (.err e, some b)
  | (.crash, _) => (.crash, some b)

/-- `Manifest::open_or_create` on a file that is missing or empty. -/
def create (levelCount : Nat) (access write : Fault) (file : Option (List UInt8)) :
    Outcome Status (Manifest × LevelManager × StagedCounters) × Option (List UInt8) :=
  match access with
  | .none =>
    match Manifest.openOrCreate write.io ⟨{ path := PATH }, file, LevelManager.init levelCount⟩ with
    | (.ok _, s) => (write.outcome (.ok (s.manifest, s.levels, s.manifest.counters)), s.file)
    | (.err e, s) => (write.outcome (.err e), s.file)
    | (.crash, s) => (.crash, s.file)
  | .err _ e => (.err e, file)
  | .crash reached => (.crash, if reached = 0 then file else some (file.getD []))

/-- The state of the object's operations. -/
def stateOf (v : ManifestView (List UInt8) Manifest) : ManifestState :=
  ⟨{ v.object with counters := v.counters }, v.file, v.levels⟩

def viewOf (s : ManifestState) : ManifestView (List UInt8) Manifest :=
  ⟨s.file, s.manifest, s.levels, s.manifest.counters⟩

end ByteStore

/-- The bytes of the manifest file. -/
instance byteStore [Zlib] : ManifestStore (List UInt8) Manifest where
  openManifest n access write := fun file =>
    match file with
    | none => ByteStore.create n access write none
    | some b => if b = [] then ByteStore.create n access write (some b) else ByteStore.recover n access b
  commit fault edit := fun v =>
    match Manifest.commit fault.io edit (ByteStore.stateOf v) with
    | (o, s) => (fault.outcome o, ByteStore.viewOf s)
  sync fault := fun v =>
    match Manifest.sync fault.io (ByteStore.stateOf v) with
    | (o, s) => (fault.outcome o, ByteStore.viewOf s)

/-- A manifest file as the list of its edits. -/
structure EditLog where
  edits : List VersionEdit

/-- The manifest object of an `EditLog`. -/
structure LogObject where
  writePoisoned : Bool := false
deriving DecidableEq

namespace EditLog

/-- The edits of a manifest file; a missing file has none. -/
def editsOf (file : Option EditLog) : List VersionEdit := (file.map EditLog.edits).getD []

/-- The file after an append that reached it or not. -/
def append (file : Option EditLog) (edit : VersionEdit) (reached : Nat) : Option EditLog :=
  if reached = 0 then file else some ⟨editsOf file ++ [edit]⟩

/-- `Manifest::load` of a file, or a new one. -/
def recover (levelCount : Nat) (file : Option EditLog) : Except Status
    (LogObject × LevelManager × StagedCounters) := do
  let v ← replay levelCount (editsOf file)
  checkInvariants v.1 v.2
  pure ({}, v.1, v.2)

end EditLog

/-- The edits of the manifest file. -/
instance editStore [Zlib] : ManifestStore EditLog LogObject where
  openManifest n access write := fun file =>
    match access, write with
    | .none, .none =>
      match EditLog.recover n file with
      | .ok r => (.ok r, some ⟨EditLog.editsOf file⟩)
      | .error e => (.err e, file)
    | .err _ e, _ => (.err e, file)
    | .none, .err _ e => (.err e, file)
    | _, _ => (.crash, file)
  commit fault edit := fun v =>
    if v.object.writePoisoned then
      (.err ⟨.failedPrecondition, "manifest writer is poisoned; reload before committing"⟩, v)
    else
      match stageApply v.levels v.counters edit, edit.prepare with
      | .error e, _ => (.err e, v)
      | .ok _, .error e => (.err e, v)
      | .ok (levels, counters), .ok _ =>
        match fault with
        | .none => (.ok (), { v with file := EditLog.append v.file edit 1, levels, counters })
        | .err reached e => (.err e, { v with file := EditLog.append v.file edit reached, object := ⟨true⟩ })
        | .crash reached => (.crash, { v with file := EditLog.append v.file edit reached })
  sync fault := fun v =>
    if v.object.writePoisoned then
      (.err ⟨.failedPrecondition, "manifest writer is poisoned; reload before syncing"⟩, v)
    else
      match fault with
      | .none => (.ok (), v)
      | .err _ e => (.err e, { v with object := ⟨true⟩ })
      | .crash _ => (.crash, v)

/-! ## Disk and memory -/

structure Disk (φ : Type) where
  /-- the database directory exists -/
  dir : Bool
  manifest : Option φ
  /-- `wal-<id>.log` -/
  wals : UInt32 → Option (List UInt8)
  /-- `sstables/table-<id>.sst` -/
  tables : UInt32 → Option (List InternalRecord)

/-- `WALWriter`: the tracked offset is the length of its file. -/
structure WALHandle where
  walId : UInt32
  /-- `file_ != nullptr` -/
  isOpen : Bool := true
deriving DecidableEq

structure Engine (ω : Type) where
  options : DBOptions
  opened : Bool := false
  closed : Bool := false
  manifest : Option ω := none
  levels : LevelManager := ⟨[]⟩
  /-- the counters of `manifest_` -/
  counters : StagedCounters := {}
  wal : Option WALHandle := none
  mem : MemTable := {}
  nextSequence : UInt64 := 1
  currentWalId : UInt32 := 1

/-- The file operations of the engine. -/
inductive Site where
  | putAppend | putSync | putApply
  | flushTable | flushRemove | flushCreate | flushUndo | flushCommit | flushSwitch | flushClose | flushDrop
  | compactTables | compactCommit | compactDrop
  | openDirs | openManifest | openHeader | openCreate | openRemove | openReplace | openWrite | openSync
  | openUndo | openCommit | openDrop
  | closeWal | closeManifest
deriving DecidableEq, Repr

structure World (φ ω : Type) where
  engine : Engine ω
  disk : Disk φ
  faults : Site → List Fault

abbrev EngineM (φ ω : Type) := Prog (World φ ω) Status

/-! ## File operations -/

namespace World

variable {φ ω : Type}

/-- The next fault of a site. -/
def fault (w : World φ ω) (site : Site) : Fault := (w.faults site).headD .none

/-- The world after an operation of the site has taken its fault. -/
def pop (w : World φ ω) (site : Site) : World φ ω :=
  { w with faults := Function.update w.faults site (w.faults site).tail }

def mapDisk (w : World φ ω) (f : Disk φ → Disk φ) : World φ ω := { w with disk := f w.disk }

def mapEngine (w : World φ ω) (f : Engine ω → Engine ω) : World φ ω := { w with engine := f w.engine }

end World

namespace Disk

variable {φ : Type}

def setWal (d : Disk φ) (id : UInt32) (b : Option (List UInt8)) : Disk φ :=
  { d with wals := Function.update d.wals id b }

end Disk

section Operations

variable {φ ω : Type}

def modifyEngine (f : Engine ω → Engine ω) : EngineM φ ω Unit := modify fun w => w.mapEngine f

/-- An operation that is done at once. -/
def fileOp (site : Site) (f : Disk φ → Disk φ) : EngineM φ ω Unit := fun w =>
  match w.fault site with
  | .none => (.ok (), (w.pop site).mapDisk f)
  | .err reached e => (.err e, if reached = 0 then w.pop site else (w.pop site).mapDisk f)
  | .crash reached => (.crash, if reached = 0 then w.pop site else (w.pop site).mapDisk f)

/-- An operation that changes no file: a sync (bytes once appended survive the process), a close,
or one in memory that may fail. -/
def touch (site : Site) : EngineM φ ω Unit := fileOp site id

/-- The cut of an append. -/
def Fault.cut : Fault → Option Cut
  | .none => Option.none
  | .err reached _ => some ⟨reached, false⟩
  | .crash reached => some ⟨reached, true⟩

def Fault.error : Fault → Status
  | .err _ e => e
  | _ => ⟨.writeFailed, "append"⟩

/-- Run a writer at the end of a WAL file. -/
def appendWal (site : Site) (id : UInt32) (m : WriterM Status Unit) : EngineM φ ω Unit := fun w =>
  match m ⟨(w.disk.wals id).getD [], ((w.disk.wals id).getD []).length, (w.fault site).cut,
    (w.fault site).error⟩ with
  | (o, file) => (o, (w.pop site).mapDisk fun d => d.setWal id (some file.bytes))

variable [Zlib]

/-- `WALWriter::create`. -/
def createWal (site : Site) (id : UInt32) (startSeq : UInt64) : EngineM φ ω WALHandle := do
  fileOp site fun d => d.setWal id none
  fileOp site fun d => d.setWal id (some [])
  appendWal site id (WALWriter.create id startSeq)
  touch site
  pure ⟨id, true⟩

/-- `WALWriter::write`. -/
def writeWal (site : Site) (wal : WALHandle) (record : InternalRecord) : EngineM φ ω Unit := do
  ensure wal.isOpen ⟨.failedPrecondition, "WAL writer is not open"⟩
  appendWal site wal.walId (WALWriter.write record)

/-- `WALWriter::sync`. -/
def syncWal (site : Site) (wal : WALHandle) : EngineM φ ω Unit := do
  ensure wal.isOpen ⟨.failedPrecondition, "WAL writer is not open"⟩
  touch site

/-- Run a program on the table files. -/
def onTables {α : Type} (site : Site) (m : Prog TableStore Status α) : EngineM φ ω α := fun w =>
  match m ⟨w.disk.tables, w.faults site⟩ with
  | (o, s) =>
    (o, { w with
      disk := { w.disk with tables := s.files }
      faults := Function.update w.faults site s.faults })

variable [ManifestStore φ ω]

/-- Run an operation of the manifest object; there is none before `open_manifest`. -/
def onManifest (m : Prog (ManifestView φ ω) Status Unit) : EngineM φ ω Unit := fun w =>
  match w.engine.manifest with
  | none => (.ok (), w)
  | some object =>
    match m ⟨w.disk.manifest, object, w.engine.levels, w.engine.counters⟩ with
    | (o, v) =>
      (o, { w with
        disk := { w.disk with manifest := v.file }
        engine := { w.engine with manifest := some v.object, levels := v.levels, counters := v.counters } })

/-- `Manifest::commit`. -/
def commitManifest (site : Site) (edit : VersionEdit) : EngineM φ ω Unit := fun w =>
  onManifest (ManifestStore.commit (w.fault site) edit) (w.pop site)

/-- `Manifest::sync`. -/
def syncManifest (site : Site) : EngineM φ ω Unit := fun w =>
  onManifest (ManifestStore.sync (w.fault site)) (w.pop site)

end Operations

end Kvdb
