import Kvdb.Engine.LevelManager
import Kvdb.Engine.Options

/-!
# Compaction plans

`CompactionPlan` with its validation (`core/compaction/compaction_plan.cpp`), the
scheduler that picks a plan from the levels (`compaction_scheduler.cpp`), and the
selection loop of `Engine::compact_range`, which widens the range of a manual
plan until nothing more overlaps it.

The loop has fuel for one round more than there are tables on the two levels;
`selectLoop_selected` shows that it is never used up.
-/

namespace Kvdb

inductive CompactionReason where
  | manual
  | l0ReachedLimit
  | lxReachedLimit
deriving DecidableEq

structure CompactionPlan where
  reason : CompactionReason := .manual
  sourceLevel : UInt32 := 0
  targetLevel : UInt32 := 0
  sourceTables : List TableMeta := []
  overlappingTables : List TableMeta := []
  smallestKey : ArenaEntry := .empty
  largestKey : ArenaEntry := .empty
  maxOutputFileSize : Nat := 4 * 1024 * 1024
deriving DecidableEq

/-- `table_range_is_valid`. -/
def tableRangeIsValid (table : TableMeta) : Bool := !table.largestKey.lt table.smallestKey

/-- `range_contains`. -/
def rangeContains (planSmallest planLargest : ArenaEntry) (table : TableMeta) : Bool :=
  !table.smallestKey.lt planSmallest && !planLargest.lt table.largestKey

namespace CompactionPlan

/-- `validate_table`; `tableIds` are the ids of the tables before it. -/
def validateTable (p : CompactionPlan) (expectedLevel : UInt32) (tableIds : List UInt64) (table : TableMeta) :
    Option (List UInt64) :=
  if table.tableId = 0 ∨ table.level ≠ expectedLevel then none
  else if !tableRangeIsValid table || !rangeContains p.smallestKey p.largestKey table then none
  else if table.tableId ∈ tableIds then none
  else some (table.tableId :: tableIds)

/-- `CompactionPlan::validate`. -/
def validate (p : CompactionPlan) : Bool :=
  if p.sourceTables = [] then false
  else if p.sourceLevel.toNat = 2 ^ 32 - 1 ∨ p.targetLevel ≠ p.sourceLevel + 1 then false
  else if p.maxOutputFileSize = 0 then false
  else if p.largestKey.lt p.smallestKey then false
  else if p.reason = .l0ReachedLimit ∧ p.sourceLevel ≠ 0 then false
  else if p.reason = .lxReachedLimit ∧ p.sourceLevel = 0 then false
  else
    match p.sourceTables.foldlM (p.validateTable p.sourceLevel) [] with
    | none => false
    | some tableIds => (p.overlappingTables.foldlM (p.validateTable p.targetLevel) tableIds).isSome

/-- `widen_plan_range`. -/
def widenPlanRange (p : CompactionPlan) (table : TableMeta) : CompactionPlan :=
  { p with
    smallestKey := if table.smallestKey.lt p.smallestKey then table.smallestKey else p.smallestKey
    largestKey := if p.largestKey.lt table.largestKey then table.largestKey else p.largestKey }

/-- Take every table of the target level that overlaps the range, and widen the range by them. -/
def takeOverlapping (p : CompactionPlan) (lm : LevelManager) : CompactionPlan :=
  let overlapping := lm.findOverlappingTables p.targetLevel.toNat p.smallestKey p.largestKey
  overlapping.foldl widenPlanRange { p with overlappingTables := overlapping }

end CompactionPlan

/-! ## Scheduler -/

/-- The loop of `level_size_bytes`: the sum stops at the largest 64-bit value. -/
def addFileSizes : Nat → List TableMeta → Nat
  | total, [] => total
  | total, table :: tables =>
    if table.fileSize.toNat > 2 ^ 64 - 1 - total then 2 ^ 64 - 1
    else addFileSizes (total + table.fileSize.toNat) tables

/-- `level_size_bytes`. -/
def levelSizeBytes (lm : LevelManager) (level : Nat) : Nat := addFileSizes 0 (lm.tables level)

/-- The comparison of `std::max_element`: by file size, the older id first among equals. -/
def smallerTable (lhs rhs : TableMeta) : Bool :=
  if lhs.fileSize ≠ rhs.fileSize then decide (lhs.fileSize < rhs.fileSize) else decide (lhs.tableId > rhs.tableId)

/-- `std::max_element` on `best` and the tables behind it. -/
def maxElement : TableMeta → List TableMeta → TableMeta
  | best, [] => best
  | best, table :: tables => maxElement (if smallerTable best table then table else best) tables

/-- The plan of `pick_level_compaction` on a level that has tables. -/
def levelPlan (lm : LevelManager) (level : UInt32) (o : CompactionOptions) (first : TableMeta)
    (rest : List TableMeta) : CompactionPlan :=
  let selected := if level = 0 then first else maxElement first rest
  let sourceTables := if level = 0 then first :: rest else [selected]
  let plan : CompactionPlan :=
    { reason := if level = 0 then .l0ReachedLimit else .lxReachedLimit
      sourceLevel := level
      targetLevel := level + 1
      sourceTables
      smallestKey := selected.smallestKey
      largestKey := selected.largestKey
      maxOutputFileSize := entryAt o.targetFileSizePerLevel (level + 1).toNat }
  (sourceTables.foldl CompactionPlan.widenPlanRange plan).takeOverlapping lm

/-- `pick_level_compaction`. -/
def pickLevelCompaction (lm : LevelManager) (level : UInt32) (o : CompactionOptions) :
    Except Status (Option CompactionPlan) :=
  match lm.tables level.toNat with
  | [] => .error ⟨.invalidState, "Compaction source level is missing or empty"⟩
  | first :: rest =>
    if (level + 1).toNat ≥ o.maxLevels then .error ⟨.invalidState, "Cannot compact the bottommost level"⟩
    else if !(levelPlan lm level o first rest).validate then
      .error ⟨.corruption, "Scheduler produced an invalid compaction plan"⟩
    else .ok (some (levelPlan lm level o first rest))

/-- L0 has as many tables as trigger a compaction. -/
def l0Triggers (lm : LevelManager) (o : CompactionOptions) : Bool :=
  decide ((lm.tables 0).length ≥ o.l0FileCountTrigger)

/-- The level is over its byte budget. -/
def overBudget (lm : LevelManager) (o : CompactionOptions) (level : Nat) : Bool :=
  decide (levelSizeBytes lm level > entryAt o.maxBytesPerLevel level)

/-- `CompactionScheduler::should_compact`. -/
def shouldCompact (lm : LevelManager) (o : CompactionOptions) : Bool :=
  match o.validate with
  | .error _ => false
  | .ok _ => l0Triggers lm o || (innerLevels o.maxLevels).any (overBudget lm o)

/-- `CompactionScheduler::pick_compaction`. -/
def pickCompaction (lm : LevelManager) (o : CompactionOptions) : Except Status (Option CompactionPlan) :=
  match o.validate with
  | .error e => .error e
  | .ok _ =>
    if l0Triggers lm o then pickLevelCompaction lm 0 o
    else
      match (innerLevels o.maxLevels).find? (overBudget lm o) with
      | some level => pickLevelCompaction lm (UInt32.ofNat level) o
      | none => .ok none

/-! ## Manual compaction -/

/-- One round of the selection loop; it ends the loop when no source table is left. -/
def selectRound (lm : LevelManager) (p : CompactionPlan) : CompactionPlan :=
  let source := lm.findOverlappingTables p.sourceLevel.toNat p.smallestKey p.largestKey
  if source = [] then { p with sourceTables := [] }
  else (source.foldl CompactionPlan.widenPlanRange { p with sourceTables := source }).takeOverlapping lm

/-- Neither the counts nor the range changed in the round from `p` to `q`. -/
def sameSelection (p q : CompactionPlan) : Prop :=
  p.sourceTables.length = q.sourceTables.length ∧ p.overlappingTables.length = q.overlappingTables.length ∧
    p.smallestKey = q.smallestKey ∧ p.largestKey = q.largestKey

instance (p q : CompactionPlan) : Decidable (sameSelection p q) := inferInstanceAs (Decidable (_ ∧ _ ∧ _ ∧ _))

/-- `for (;;)` of `Engine::compact_range`. -/
def selectLoop (lm : LevelManager) : Nat → CompactionPlan → CompactionPlan
  | 0, p => p
  | n + 1, p =>
    let q := selectRound lm p
    if q.sourceTables = [] then q else if sameSelection p q then q else selectLoop lm n q

/-- The plan of `Engine::compact_range` for one source level. -/
def manualPlan (lm : LevelManager) (o : CompactionOptions) (sourceLevel : UInt32) (smallest largest : ArenaEntry) :
    CompactionPlan :=
  selectLoop lm ((lm.tables sourceLevel.toNat).length + (lm.tables (sourceLevel + 1).toNat).length + 2)
    { reason := .manual
      sourceLevel
      targetLevel := sourceLevel + 1
      smallestKey := smallest
      largestKey := largest
      maxOutputFileSize := entryAt o.targetFileSizePerLevel (sourceLevel + 1).toNat }

end Kvdb
