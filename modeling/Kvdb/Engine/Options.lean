import Mathlib.Algebra.Group.Nat.Defs
import Kvdb.Utils.Status

/-!
# Options

`DBOptions` (`config/db_options.cpp`) with the validation of its groups, and the
`CompactionOptions` that the engine derives from it for the scheduler
(`core/compaction/compaction_options.cpp`).  A default is the source's.
-/

namespace Kvdb

/-- `Status::invalid_argument`. -/
def invalidArgument (message : String) : Except Status Unit := .error ⟨.invalidArgument, message⟩

structure ArenaOptions where
  pageSize : Nat := 64 * 1024
  largeThreshold : Nat := 16 * 1024
deriving DecidableEq

def ArenaOptions.validate (o : ArenaOptions) : Except Status Unit :=
  if o.pageSize = 0 ∨ o.pageSize > 2 ^ 20 then invalidArgument "arena page_size must be in [1, 1048576]"
  else if o.largeThreshold = 0 then invalidArgument "arena large_threshold must be greater than zero"
  else .ok ()

structure MemTableOptions where
  sizeLimit : Nat := 64 * 1024 * 1024
  immutableTablesLimit : Nat := 1
deriving DecidableEq

def MemTableOptions.validate (o : MemTableOptions) : Except Status Unit :=
  if o.sizeLimit = 0 then invalidArgument "memtable size_limit must be greater than zero"
  else if o.immutableTablesLimit = 0 then
    invalidArgument "memtable immutable_tables_limit must be greater than zero"
  else .ok ()

structure WALOptions where
  fileSizeLimit : Nat := 64 * 1024 * 1024
  syncOnWrite : Bool := false
deriving DecidableEq

def WALOptions.validate (o : WALOptions) : Except Status Unit :=
  if o.fileSizeLimit = 0 then invalidArgument "WAL file_size_limit must be greater than zero" else .ok ()

structure BloomFilterOptions where
  hashCount : Nat := 2
  maskBitSize : Nat := 128
deriving DecidableEq

def BloomFilterOptions.validate (o : BloomFilterOptions) : Except Status Unit :=
  if o.hashCount = 0 then invalidArgument "Bloom filter hash_count must be greater than zero"
  else if o.maskBitSize = 0 ∨ o.maskBitSize % 8 ≠ 0 then
    invalidArgument "Bloom filter mask_bit_size must be a non-zero multiple of 8"
  else .ok ()

def defaultMaxBytesPerLevel : List Nat :=
  [0, 64 * 1024 * 1024, 640 * 1024 * 1024, 6400 * 1024 * 1024, 64000 * 1024 * 1024, 640000 * 1024 * 1024, 0]

def defaultTargetFileSizePerLevel : List Nat :=
  [8 * 1024 * 1024, 8 * 1024 * 1024, 16 * 1024 * 1024, 32 * 1024 * 1024, 64 * 1024 * 1024, 128 * 1024 * 1024,
    256 * 1024 * 1024]

/-- The level-indexed entry, read after the length check. -/
def entryAt (l : List Nat) (level : Nat) : Nat := l.getD level 0

/-- `for (level = 1; level + 1 < max_levels; ++level)`: the levels above the bottommost one. -/
def innerLevels (maxLevels : Nat) : List Nat := (List.range (maxLevels - 2)).map (· + 1)

/-- `for (level = 1; level < max_levels; ++level)`: the levels a compaction writes to. -/
def outputLevels (maxLevels : Nat) : List Nat := (List.range (maxLevels - 1)).map (· + 1)

/-- `DBOptions::CompactionOptions`. -/
structure DBCompactionOptions where
  enableBackgroundCompaction : Bool := true
  maxLevels : UInt32 := 7
  l0FileCountTrigger : Nat := 4
  maxBytesPerLevel : List Nat := defaultMaxBytesPerLevel
  targetFileSizePerLevel : List Nat := defaultTargetFileSizePerLevel
deriving DecidableEq

def DBCompactionOptions.validate (o : DBCompactionOptions) : Except Status Unit :=
  if o.maxLevels < 2 then invalidArgument "compaction max_levels must be at least 2"
  else if o.l0FileCountTrigger = 0 ∨ o.l0FileCountTrigger > 2 ^ 32 - 1 then
    invalidArgument "compaction l0_file_count_trigger is outside the supported range"
  else if o.maxBytesPerLevel.length < o.maxLevels.toNat ∨ o.targetFileSizePerLevel.length < o.maxLevels.toNat then
    invalidArgument "compaction level option arrays must cover every level"
  else if (innerLevels o.maxLevels.toNat).any fun level => entryAt o.maxBytesPerLevel level == 0 then
    invalidArgument "every compactable L1+ level needs a non-zero byte limit"
  else if (outputLevels o.maxLevels.toNat).any fun level => entryAt o.targetFileSizePerLevel level == 0 then
    invalidArgument "every output level needs a non-zero target file size"
  else .ok ()

structure DBOptions where
  /-- the generic string of `db_path` -/
  dbPath : List UInt8
  createIfMissing : Bool := true
  errorIfExists : Bool := false
  blockSize : Nat := 4 * 1024
  arena : ArenaOptions := {}
  memtable : MemTableOptions := {}
  wal : WALOptions := {}
  bloomFilter : BloomFilterOptions := {}
  compaction : DBCompactionOptions := {}
  manifestFileSizeLimit : Nat := 16 * 1024 * 1024
deriving DecidableEq

/-- `DBOptions::validate`. -/
def DBOptions.validate (o : DBOptions) : Except Status Unit := do
  if o.dbPath = [] then invalidArgument "database path must not be empty" else .ok ()
  if o.blockSize = 0 ∨ o.blockSize > 2 ^ 32 - 1 then
    invalidArgument "block_size is outside the supported range"
  else .ok ()
  o.arena.validate
  o.memtable.validate
  o.wal.validate
  o.bloomFilter.validate
  o.compaction.validate
  if o.manifestFileSizeLimit = 0 then
    invalidArgument "manifest file_size_limit must be greater than zero"
  else .ok ()

/-! ## The scheduler's options -/

structure CompactionOptions where
  maxLevels : Nat
  l0FileCountTrigger : Nat
  maxBytesPerLevel : List Nat
  targetFileSizePerLevel : List Nat
deriving DecidableEq

/-- `scheduler_options`. -/
def schedulerOptions (o : DBOptions) : CompactionOptions where
  maxLevels := o.compaction.maxLevels.toNat
  l0FileCountTrigger := o.compaction.l0FileCountTrigger % 2 ^ 32
  maxBytesPerLevel := o.compaction.maxBytesPerLevel
  targetFileSizePerLevel := o.compaction.targetFileSizePerLevel

/-- `CompactionOptions::validate`. -/
def CompactionOptions.validate (o : CompactionOptions) : Except Status Unit :=
  if o.maxLevels < 2 then invalidArgument "max_levels must be at least 2"
  else if o.l0FileCountTrigger = 0 then invalidArgument "l0_file_count_trigger must be greater than 0"
  else if o.maxBytesPerLevel.length < o.maxLevels then
    invalidArgument "max_bytes_per_level must contain one entry per level"
  else if o.targetFileSizePerLevel.length < o.maxLevels then
    invalidArgument "target_file_size_per_level must contain one entry per level"
  else if (innerLevels o.maxLevels).any fun level => entryAt o.maxBytesPerLevel level == 0 then
    invalidArgument "max_bytes_per_level for every compactable L1+ level must be greater than 0"
  else if (outputLevels o.maxLevels).any fun level => entryAt o.targetFileSizePerLevel level == 0 then
    invalidArgument "target_file_size_per_level for every output level must be greater than 0"
  else .ok ()

end Kvdb
