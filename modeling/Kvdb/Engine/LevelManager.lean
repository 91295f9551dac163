import Kvdb.Engine.TableMeta

/-!
# Level manager

`LevelManager` (`core/engine/level_manager.cpp`): the tables of every level.  L0
is kept by descending table id, the other levels by smallest key.
`std::lower_bound` on a range is the split at the first element that fails the
predicate.
-/

namespace Kvdb

structure LevelManager where
  levels : List (List TableMeta)
deriving DecidableEq

/-- `key_is_inside_table`. -/
def keyIsInsideTable (key : ArenaEntry) (table : TableMeta) : Bool :=
  !key.lt table.smallestKey && !table.largestKey.lt key

/-- `ranges_overlap`. -/
def rangesOverlap (firstSmallest firstLargest secondSmallest secondLargest : ArenaEntry) : Bool :=
  !firstLargest.lt secondSmallest && !secondLargest.lt firstSmallest

namespace LevelManager

/-- The constructor: `levelCount` empty levels. -/
def init (levelCount : Nat) : LevelManager := ⟨List.replicate levelCount []⟩

def levelCount (lm : LevelManager) : Nat := lm.levels.length

/-- The tables of a level; none beyond the configured levels. -/
def tables (lm : LevelManager) (level : Nat) : List TableMeta := lm.levels.getD level []

def setTables (lm : LevelManager) (level : Nat) (ts : List TableMeta) : LevelManager :=
  ⟨lm.levels.set level ts⟩

/-- The insertion into L1+, between its neighbours at the insertion position. -/
def addSorted (lm : LevelManager) (m : TableMeta) (before after : List TableMeta) :
    Except Status LevelManager :=
  match before.getLast? with
  | some previous =>
    if rangesOverlap previous.smallestKey previous.largestKey m.smallestKey m.largestKey then
      .error ⟨.invariantViolation, "table " ++ toString m.tableId ++ " overlaps previous table "
        ++ toString previous.tableId ++ " on level " ++ toString m.level⟩
    else addBefore
  | none => addBefore
where
  addBefore : Except Status LevelManager :=
    match after.head? with
    | some next =>
      if rangesOverlap m.smallestKey m.largestKey next.smallestKey next.largestKey then
        .error ⟨.invariantViolation, "table " ++ toString m.tableId ++ " overlaps next table "
          ++ toString next.tableId ++ " on level " ++ toString m.level⟩
      else .ok (lm.setTables m.level.toNat (before ++ m :: after))
    | none => .ok (lm.setTables m.level.toNat (before ++ m :: after))

/-- `LevelManager::add_table`. -/
def addTable (lm : LevelManager) (m : TableMeta) : Except Status LevelManager :=
  if m.tableId = 0 then
    .error ⟨.invalidArgument, "table id zero is reserved and cannot be installed"⟩
  else if m.level.toNat ≥ lm.levelCount then
    .error ⟨.invalidArgument, "table " ++ toString m.tableId ++ " targets invalid level " ++ toString m.level
      ++ "; configured level count is " ++ toString lm.levelCount⟩
  else if m.largestKey.lt m.smallestKey then
    .error ⟨.invalidArgument, "table " ++ toString m.tableId ++ " has an invalid key range"⟩
  else
    match lm.levels.findIdx? (fun ts => ts.any fun t => t.tableId == m.tableId) with
    | some level =>
      .error ⟨.duplicate, "table id " ++ toString m.tableId ++ " already exists on level " ++ toString level⟩
    | none =>
      let ts := lm.tables m.level.toNat
      if m.level = 0 then
        .ok (lm.setTables 0
          (ts.takeWhile (fun t => t.tableId > m.tableId) ++ m :: ts.dropWhile fun t => t.tableId > m.tableId))
      else
        lm.addSorted m (ts.takeWhile fun t => t.smallestKey.lt m.smallestKey)
          (ts.dropWhile fun t => t.smallestKey.lt m.smallestKey)

/-- `LevelManager::remove_table` on a given level. -/
def removeTable (lm : LevelManager) (tableId : UInt64) (level : UInt32) : Except Status LevelManager :=
  if tableId = 0 then .error ⟨.invalidArgument, "table id zero is invalid"⟩
  else if level.toNat ≥ lm.levelCount then
    .error ⟨.invalidArgument, "level " ++ toString level ++ " does not exist while removing table "
      ++ toString tableId⟩
  else
    match (lm.tables level.toNat).filter (fun t => t.tableId == tableId) with
    | [] =>
      .error ⟨.notFound, "could not find table id " ++ toString tableId ++ " on level " ++ toString level⟩
    | [_] => .ok (lm.setTables level.toNat ((lm.tables level.toNat).eraseP fun t => t.tableId == tableId))
    | _ =>
      .error ⟨.invariantViolation, "table id " ++ toString tableId ++ " appears multiple times on level "
        ++ toString level⟩

/-- `LevelManager::empty`. -/
def empty (lm : LevelManager) : Bool := lm.levels.all List.isEmpty

/-- `LevelManager::find_candidate_tables_in_level`. -/
def findCandidateTablesInLevel (lm : LevelManager) (level : Nat) (key : ArenaEntry) :
    Except Status (List TableMeta) :=
  if level ≥ lm.levelCount then .error ⟨.notFound, "level " ++ toString level ++ " does not exist"⟩
  else if level = 0 then .ok ((lm.tables 0).filter (keyIsInsideTable key))
  else
    match (lm.tables level).dropWhile fun t => t.largestKey.lt key with
    | [] => .ok []
    | candidate :: _ => .ok (if keyIsInsideTable key candidate then [candidate] else [])

/-- `LevelManager::find_overlapping_tables`. -/
def findOverlappingTables (lm : LevelManager) (level : Nat) (smallest largest : ArenaEntry) :
    List TableMeta :=
  if level ≥ lm.levelCount ∨ largest.lt smallest = true then []
  else if level = 0 then
    (lm.tables 0).filter fun t => rangesOverlap t.smallestKey t.largestKey smallest largest
  else
    ((lm.tables level).dropWhile fun t => t.largestKey.lt smallest).takeWhile
      fun t => !largest.lt t.smallestKey

/-! ## What the updates do -/

@[simp] theorem levelCount_setTables (lm : LevelManager) (level : Nat) (ts : List TableMeta) :
    (lm.setTables level ts).levelCount = lm.levelCount := by
  simp [levelCount, setTables]

theorem tables_setTables_self {lm : LevelManager} {level : Nat} (h : level < lm.levelCount)
    (ts : List TableMeta) : (lm.setTables level ts).tables level = ts := by
  simp only [levelCount] at h
  simp [tables, setTables, h]

theorem tables_setTables_ne {lm : LevelManager} {level level' : Nat} (h : level ≠ level')
    (ts : List TableMeta) : (lm.setTables level ts).tables level' = lm.tables level' := by
  simp [tables, setTables, h]

theorem tables_init (n level : Nat) : (init n).tables level = [] := by
  by_cases h : level < n
  · simp [init, tables, h]
  · simp [init, tables, h]

theorem mem_tables_level {lm : LevelManager} {level : Nat} {t : TableMeta} (h : t ∈ lm.tables level) :
    level < lm.levelCount := by
  by_contra hn
  have hnone : lm.tables level = [] := by
    simp only [tables, levelCount] at *
    rw [List.getD_eq_getElem?_getD, List.getElem?_eq_none (by omega)]
    rfl
  rw [hnone] at h
  cases h

theorem addSorted_ok {lm lm' : LevelManager} {m : TableMeta} {before after : List TableMeta}
    (h : lm.addSorted m before after = .ok lm') : lm' = lm.setTables m.level.toNat (before ++ m :: after) := by
  have hbefore : ∀ {x}, addSorted.addBefore lm m before after = .ok x →
      x = lm.setTables m.level.toNat (before ++ m :: after) := by
    intro x hx
    unfold addSorted.addBefore at hx
    split at hx
    · split at hx
      · cases hx
      · cases hx
        rfl
    · cases hx
      rfl
  unfold addSorted at h
  split at h
  · split at h
    · cases h
    · exact hbefore h
  · exact hbefore h

/-- A table is added at one place of its own level, with an id no other table has. -/
theorem addTable_ok {lm lm' : LevelManager} {m : TableMeta} (h : lm.addTable m = .ok lm') :
    m.tableId ≠ 0 ∧ m.level.toNat < lm.levelCount ∧ m.largestKey.lt m.smallestKey = false ∧
      (∀ level, ∀ t ∈ lm.tables level, t.tableId ≠ m.tableId) ∧
      ∃ before after, lm.tables m.level.toNat = before ++ after ∧
        lm' = lm.setTables m.level.toNat (before ++ m :: after) := by
  unfold addTable at h
  split at h
  · cases h
  next hid =>
  split at h
  · cases h
  next hlevel =>
  split at h
  · cases h
  next hrange =>
  split at h
  · cases h
  next hdup =>
  have hfresh : ∀ level, ∀ t ∈ lm.tables level, t.tableId ≠ m.tableId := by
    intro level t ht heq
    have hlt := mem_tables_level ht
    have hmem : lm.tables level ∈ lm.levels := by
      unfold tables
      rw [List.getD_eq_getElem?_getD, List.getElem?_eq_getElem hlt]
      exact List.getElem_mem hlt
    have hnone := List.findIdx?_eq_none_iff.mp hdup (lm.tables level) hmem
    simp only [List.any_eq_false, beq_iff_eq] at hnone
    exact hnone t ht heq
  refine ⟨hid, by omega, by simpa using hrange, hfresh, ?_⟩
  split at h
  · next h0 =>
    cases h
    rw [h0]
    exact ⟨_, _, (List.takeWhile_append_dropWhile).symm, rfl⟩
  · exact ⟨_, _, (List.takeWhile_append_dropWhile).symm, addSorted_ok h⟩

theorem mem_addTable {lm lm' : LevelManager} {m : TableMeta} (h : lm.addTable m = .ok lm') (level : Nat)
    (t : TableMeta) : t ∈ lm'.tables level ↔ t ∈ lm.tables level ∨ (t = m ∧ level = m.level.toNat) := by
  obtain ⟨-, hlevel, -, -, before, after, hsplit, rfl⟩ := addTable_ok h
  by_cases heq : level = m.level.toNat
  · subst heq
    rw [tables_setTables_self hlevel, hsplit]
    simp only [List.mem_append, List.mem_cons, and_true]
    tauto
  · rw [tables_setTables_ne (Ne.symm heq)]
    simp [heq]

/-- A removed table was on its level, once. -/
theorem removeTable_ok {lm lm' : LevelManager} {tableId : UInt64} {level : UInt32}
    (h : lm.removeTable tableId level = .ok lm') :
    tableId ≠ 0 ∧ level.toNat < lm.levelCount ∧ (∃ t ∈ lm.tables level.toNat, t.tableId = tableId) ∧
      lm' = lm.setTables level.toNat ((lm.tables level.toNat).eraseP fun t => t.tableId == tableId) ∧
      (lm.tables level.toNat).eraseP (fun t => t.tableId == tableId) =
        (lm.tables level.toNat).filter fun t => t.tableId != tableId := by
  unfold removeTable at h
  split at h
  · cases h
  next hid =>
  split at h
  · cases h
  next hlevel =>
  split at h
  · cases h
  · next t hone =>
    cases h
    have hmem : t ∈ (lm.tables level.toNat).filter fun t => t.tableId == tableId := by
      rw [hone]
      exact List.mem_singleton_self t
    obtain ⟨ht, hteq⟩ := List.mem_filter.mp hmem
    refine ⟨hid, by omega, ⟨t, ht, by simpa using hteq⟩, rfl, ?_⟩
    generalize lm.tables level.toNat = ts at hone
    clear hmem ht
    induction ts with
    | nil => rfl
    | cons a ts ih =>
      by_cases ha : a.tableId = tableId
      · have hnil : ts.filter (fun t => t.tableId == tableId) = [] := by
          rw [List.filter_cons_of_pos (by simpa using ha)] at hone
          exact (List.cons.inj hone).2
        have hall : ts.filter (fun t => t.tableId != tableId) = ts := by
          refine List.filter_eq_self.mpr fun t ht => ?_
          have := List.filter_eq_nil_iff.mp hnil t ht
          simpa using this
        rw [List.eraseP_cons_of_pos (by simpa using ha), List.filter_cons_of_neg (by simpa using ha), hall]
      · rw [List.filter_cons_of_neg (by simpa using ha)] at hone
        rw [List.eraseP_cons_of_neg (by simpa using ha), List.filter_cons_of_pos (by simpa using ha), ih hone]
  · cases h

theorem mem_removeTable {lm lm' : LevelManager} {tableId : UInt64} {level : UInt32}
    (h : lm.removeTable tableId level = .ok lm') (l : Nat) (t : TableMeta) :
    t ∈ lm'.tables l ↔ t ∈ lm.tables l ∧ ¬ (t.tableId = tableId ∧ l = level.toNat) := by
  obtain ⟨-, hlevel, -, rfl, hfilter⟩ := removeTable_ok h
  by_cases heq : l = level.toNat
  · subst heq
    rw [tables_setTables_self hlevel, hfilter]
    simp
  · rw [tables_setTables_ne (Ne.symm heq)]
    simp [heq]

end LevelManager

end Kvdb
