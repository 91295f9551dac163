import Kvdb.Compaction.Install
import Kvdb.Compaction.ManualRange
import Kvdb.Lib.LowerBound

/-!
# The level manager over its vectors

`LevelManager` (`core/engine/level_manager.cpp`) once more, as the object it is:
`add_table` and `remove_table` change the vectors in place, and the searches look
for a position by halving (`std::lower_bound`).  On every object that calls can
reach the levels are in order, so these are the operations of
`Kvdb.LevelManager` (`addTable_eq`, `removeFrom_eq`), and the searches give what
a scan of the whole level gives:

    findCandidateTablesInLevel level key = the tables that have the key in range
    findOverlappingTables level a b      = the tables whose range meets [a, b]
-/

namespace Kvdb

open Faulty LowerBound

namespace LevelVectors

/-! ## Operations -/

/-- `level_tables.insert(position, meta)`. -/
def insertAt (level position : Nat) (m : TableMeta) : Prog LevelManager Status Unit :=
  modify fun lm => lm.setTables level ((lm.tables level).take position ++ m :: (lm.tables level).drop position)

/-- The check against the table in front of the insertion position. -/
def checkPrevious (m : TableMeta) (ts : List TableMeta) (position : Nat) : Except Status Unit :=
  if position = 0 then .ok ()
  else
    match ts[position - 1]? with
    | none => .ok ()
    | some previous =>
      if rangesOverlap previous.smallestKey previous.largestKey m.smallestKey m.largestKey then
        .error ⟨.invariantViolation, "table " ++ toString m.tableId ++ " overlaps previous table "
          ++ toString previous.tableId ++ " on level " ++ toString m.level⟩
      else .ok ()

/-- The check against the table at the insertion position. -/
def checkNext (m : TableMeta) (ts : List TableMeta) (position : Nat) : Except Status Unit :=
  match ts[position]? with
  | none => .ok ()
  | some next =>
    if rangesOverlap m.smallestKey m.largestKey next.smallestKey next.largestKey then
      .error ⟨.invariantViolation, "table " ++ toString m.tableId ++ " overlaps next table "
        ++ toString next.tableId ++ " on level " ++ toString m.level⟩
    else .ok ()

/-- The insertion below L0. -/
def insertSorted (m : TableMeta) (ts : List TableMeta) : Prog LevelManager Status Unit := do
  let position := lowerBound (fun t => t.smallestKey.lt m.smallestKey) ts
  lift (checkPrevious m ts position)
  lift (checkNext m ts position)
  insertAt m.level.toNat position m

/-- `LevelManager::add_table`. -/
def addTable (m : TableMeta) : Prog LevelManager Status Unit := do
  let lm ← Faulty.get
  ensure (m.tableId != 0) ⟨.invalidArgument, "table id zero is reserved and cannot be installed"⟩
  ensure (decide (m.level.toNat < lm.levelCount))
    ⟨.invalidArgument, "table " ++ toString m.tableId ++ " targets invalid level " ++ toString m.level
      ++ "; configured level count is " ++ toString lm.levelCount⟩
  ensure (!m.largestKey.lt m.smallestKey)
    ⟨.invalidArgument, "table " ++ toString m.tableId ++ " has an invalid key range"⟩
  match lm.levels.findIdx? (fun ts => ts.any fun t => t.tableId == m.tableId) with
  | some level =>
    fail ⟨.duplicate, "table id " ++ toString m.tableId ++ " already exists on level " ++ toString level⟩
  | none =>
    if m.level = 0 then insertAt 0 (lowerBound (fun t => t.tableId > m.tableId) (lm.tables 0)) m
    else insertSorted m (lm.tables m.level.toNat)

/-- `tables.erase(position)`. -/
def eraseAt (level position : Nat) : Prog LevelManager Status Unit :=
  modify fun lm => lm.setTables level ((lm.tables level).eraseIdx position)

/-- `remove_table` with a level. -/
def removeFrom (tableId : UInt64) (level : UInt32) : Prog LevelManager Status Unit := do
  let lm ← Faulty.get
  ensure (decide (level.toNat < lm.levelCount))
    ⟨.invalidArgument, "level " ++ toString level ++ " does not exist while removing table " ++ toString tableId⟩
  match (lm.tables level.toNat).findIdx? fun t => t.tableId == tableId with
  | none =>
    fail ⟨.notFound, "could not find table id " ++ toString tableId ++ " on level " ++ toString level⟩
  | some first =>
    match ((lm.tables level.toNat).drop (first + 1)).findIdx? fun t => t.tableId == tableId with
    | some _ =>
      fail ⟨.invariantViolation, "table id " ++ toString tableId ++ " appears multiple times on level "
        ++ toString level⟩
    | none => eraseAt level.toNat first

/-- The inner loop of `remove_table` without a level. -/
def locateIn (tableId : UInt64) (level : Nat) :
    Nat → List TableMeta → Option (Nat × Nat) → Except Status (Option (Nat × Nat))
  | _, [], found => .ok found
  | index, t :: ts, found =>
    if t.tableId ≠ tableId then locateIn tableId level (index + 1) ts found
    else if found.isSome then
      .error ⟨.invariantViolation, "table id " ++ toString tableId ++ " appears more than once in LevelManager"⟩
    else locateIn tableId level (index + 1) ts (some (level, index))

/-- The outer loop: the levels from `level` on. -/
def locate (tableId : UInt64) :
    Nat → List (List TableMeta) → Option (Nat × Nat) → Except Status (Option (Nat × Nat))
  | _, [], found => .ok found
  | level, ts :: levels, found => do
    let found ← locateIn tableId level 0 ts found
    locate tableId (level + 1) levels found

/-- `remove_table` without a level. -/
def removeAnywhere (tableId : UInt64) : Prog LevelManager Status Unit := do
  let lm ← Faulty.get
  let found ← lift (locate tableId 0 lm.levels none)
  match found with
  | none => fail ⟨.notFound, "could not find table id " ++ toString tableId ++ " in any level"⟩
  | some (level, index) => eraseAt level index

/-- `LevelManager::remove_table`. -/
def removeTable (tableId : UInt64) (targetLevel : Option UInt32) : Prog LevelManager Status Unit := do
  ensure (tableId != 0) ⟨.invalidArgument, "table id zero is invalid"⟩
  match targetLevel with
  | some level => removeFrom tableId level
  | none => removeAnywhere tableId

/-- `LevelManager::find_candidate_tables_in_level`. -/
def findCandidateTablesInLevel (lm : LevelManager) (level : Nat) (key : ArenaEntry) :
    Except Status (List TableMeta) :=
  if level ≥ lm.levelCount then .error ⟨.notFound, "level " ++ toString level ++ " does not exist"⟩
  else if level = 0 then .ok ((lm.tables 0).filter (keyIsInsideTable key))
  else
    match (lm.tables level)[lowerBound (fun t => t.largestKey.lt key) (lm.tables level)]? with
    | none => .ok []
    | some candidate => .ok (if keyIsInsideTable key candidate then [candidate] else [])

/-- `LevelManager::find_overlapping_tables`. -/
def findOverlappingTables (lm : LevelManager) (level : Nat) (smallest largest : ArenaEntry) : List TableMeta :=
  if level ≥ lm.levelCount ∨ largest.lt smallest = true then []
  else if level = 0 then
    (lm.tables 0).filter fun t => rangesOverlap t.smallestKey t.largestKey smallest largest
  else
    ((lm.tables level).drop (lowerBound (fun t => t.largestKey.lt smallest) (lm.tables level))).takeWhile
      fun t => !largest.lt t.smallestKey

/-! ## The order that the searches use -/

variable {lm : LevelManager}

theorem ascending (hs : Structured lm) {level : Nat} (h0 : level ≠ 0) {p : TableMeta → Bool}
    (h : ∀ t u : TableMeta, t.smallestKey ≤ t.largestKey → u.smallestKey ≤ u.largestKey →
      t.largestKey < u.smallestKey → p u = true → p t = true) : Splits p (lm.tables level) := by
  refine (hs.order level).imp_of_mem fun {t u} ht hu htu => ?_
  unfold LevelBefore at htu
  rw [if_neg h0] at htu
  exact h t u (hs.range level t ht) (hs.range level u hu) htu

theorem splits_tableId (hs : Structured lm) (id : UInt64) :
    Splits (fun t : TableMeta => decide (t.tableId > id)) (lm.tables 0) := by
  refine (hs.order 0).imp fun {t u} htu hu => ?_
  unfold LevelBefore at htu
  rw [if_pos rfl] at htu
  simp only [gt_iff_lt, decide_eq_true_eq, uint64_lt_iff] at hu ⊢
  omega

theorem splits_smallestKey (hs : Structured lm) {level : Nat} (h0 : level ≠ 0) (key : ArenaEntry) :
    Splits (fun t : TableMeta => t.smallestKey.lt key) (lm.tables level) := by
  refine ascending hs h0 fun t u ht _ htu hu => ?_
  rw [ArenaEntry.lt_iff] at hu ⊢
  exact ht.trans_lt (htu.trans hu)

theorem splits_largestKey (hs : Structured lm) {level : Nat} (h0 : level ≠ 0) (key : ArenaEntry) :
    Splits (fun t : TableMeta => t.largestKey.lt key) (lm.tables level) := by
  refine ascending hs h0 fun t u _ hu htu hlt => ?_
  rw [ArenaEntry.lt_iff] at hlt ⊢
  exact htu.trans_le (hu.trans hlt.le)

theorem splits_start (hs : Structured lm) {level : Nat} (h0 : level ≠ 0) (key : ArenaEntry) :
    Splits (fun t : TableMeta => !key.lt t.smallestKey) (lm.tables level) := by
  refine ascending hs h0 fun t u ht _ htu hu => ?_
  simp only [Bool.not_eq_true', lt_eq_false_iff] at hu ⊢
  exact ht.trans (htu.le.trans hu)

/-! ## The operations are those of the manager -/

/-- The manager after an operation on it. -/
def applied (lm : LevelManager) : Except Status LevelManager → Outcome Status Unit × LevelManager
  | .ok lm' => (.ok (), lm')
  | .error e => (.err e, lm)

theorem checkPrevious_eq {m : TableMeta} {p : TableMeta → Bool} {ts : List TableMeta} (h : Splits p ts) :
    checkPrevious m ts (lowerBound p ts) =
      match (ts.takeWhile p).getLast? with
      | none => .ok ()
      | some previous =>
        if rangesOverlap previous.smallestKey previous.largestKey m.smallestKey m.largestKey then
          .error ⟨.invariantViolation, "table " ++ toString m.tableId ++ " overlaps previous table "
            ++ toString previous.tableId ++ " on level " ++ toString m.level⟩
        else .ok () := by
  unfold checkPrevious
  by_cases h0 : lowerBound p ts = 0
  · have hnil : ts.takeWhile p = [] := by
      rw [← take_lowerBound h, h0, List.take_zero]
    rw [if_pos h0, hnil]
    rfl
  · rw [if_neg h0, getElem?_pred_lowerBound h h0]

theorem insertAt_eq {level : Nat} {m : TableMeta} {p : TableMeta → Bool} (h : Splits p (lm.tables level)) :
    insertAt level (lowerBound p (lm.tables level)) m lm =
      (.ok (), lm.setTables level ((lm.tables level).takeWhile p ++ m :: (lm.tables level).dropWhile p)) := by
  unfold insertAt
  rw [modify_apply, take_lowerBound h, drop_lowerBound h]

theorem insertSorted_eq (hs : Structured lm) {m : TableMeta} (h0 : m.level.toNat ≠ 0) :
    insertSorted m (lm.tables m.level.toNat) lm =
      applied lm (lm.addSorted m ((lm.tables m.level.toNat).takeWhile fun t => t.smallestKey.lt m.smallestKey)
        ((lm.tables m.level.toNat).dropWhile fun t => t.smallestKey.lt m.smallestKey)) := by
  have hsplit := splits_smallestKey hs h0 m.smallestKey
  -- what follows once the table in front leaves room
  have hnext : (lift (checkNext m (lm.tables m.level.toNat)
        (lowerBound (fun t => t.smallestKey.lt m.smallestKey) (lm.tables m.level.toNat))) >>= fun _ =>
      insertAt m.level.toNat (lowerBound (fun t => t.smallestKey.lt m.smallestKey) (lm.tables m.level.toNat)) m) lm =
      applied lm (LevelManager.addSorted.addBefore lm m
        ((lm.tables m.level.toNat).takeWhile fun t => t.smallestKey.lt m.smallestKey)
        ((lm.tables m.level.toNat).dropWhile fun t => t.smallestKey.lt m.smallestKey)) := by
    unfold checkNext LevelManager.addSorted.addBefore
    rw [getElem?_lowerBound hsplit]
    cases hhead : ((lm.tables m.level.toNat).dropWhile fun t => t.smallestKey.lt m.smallestKey).head? with
    | none =>
      rw [bind_ok (lift_ok () lm), insertAt_eq hsplit]
      rfl
    | some next =>
      dsimp only
      by_cases hover : rangesOverlap m.smallestKey m.largestKey next.smallestKey next.largestKey = true
      · rw [if_pos hover, if_pos hover, bind_err (lift_error _ lm)]
        rfl
      · rw [if_neg hover, if_neg hover, bind_ok (lift_ok () lm), insertAt_eq hsplit]
        rfl
  unfold insertSorted LevelManager.addSorted
  rw [checkPrevious_eq hsplit]
  cases hlast : ((lm.tables m.level.toNat).takeWhile fun t => t.smallestKey.lt m.smallestKey).getLast? with
  | none =>
    rw [bind_ok (lift_ok () lm)]
    exact hnext
  | some previous =>
    dsimp only
    by_cases hover : rangesOverlap previous.smallestKey previous.largestKey m.smallestKey m.largestKey = true
    · rw [if_pos hover, if_pos hover, bind_err (lift_error _ lm)]
      rfl
    · rw [if_neg hover, if_neg hover, bind_ok (lift_ok () lm)]
      exact hnext

/-- With the levels in order, the insertion by halving is `LevelManager.addTable`. -/
theorem addTable_eq (hs : Structured lm) (m : TableMeta) : addTable m lm = applied lm (lm.addTable m) := by
  unfold addTable LevelManager.addTable
  rw [bind_ok (get_apply lm), bind_apply, ensure_apply]
  by_cases hid : m.tableId = 0
  · rw [if_pos hid, if_neg (by simpa using hid)]
    rfl
  · rw [if_neg hid, if_pos (by simpa using hid)]
    dsimp only
    rw [bind_apply, ensure_apply]
    by_cases hlevel : m.level.toNat < lm.levelCount
    · have hge : ¬ m.level.toNat ≥ lm.levelCount := by omega
      rw [if_pos (by simpa using hlevel), if_neg hge]
      dsimp only
      rw [bind_apply, ensure_apply]
      by_cases hrange : m.largestKey.lt m.smallestKey = true
      · rw [if_pos hrange, if_neg (by simpa using hrange)]
        rfl
      · rw [if_neg hrange, if_pos (by simpa using hrange)]
        dsimp only
        cases hdup : lm.levels.findIdx? (fun ts => ts.any fun t => t.tableId == m.tableId) with
        | some level => rfl
        | none =>
          dsimp only
          by_cases h0 : m.level = 0
          · have hzero : m.level.toNat = 0 := by rw [h0]; rfl
            rw [if_pos h0, if_pos h0, insertAt_eq (splits_tableId hs m.tableId), hzero]
            rfl
          · have hzero : m.level.toNat ≠ 0 := fun h => h0 (UInt32.toNat_inj.mp h)
            rw [if_neg h0, if_neg h0]
            exact insertSorted_eq hs hzero
    · have hge : m.level.toNat ≥ lm.levelCount := by omega
      rw [if_neg (by simpa using hlevel), if_pos hge]
      rfl

/-- The tables with an id: the first one found, and those behind it. -/
theorem filter_of_findIdx? {p : TableMeta → Bool} {ts : List TableMeta} {first : Nat}
    (h : ts.findIdx? p = some first) : ∃ t, ts.filter p = t :: (ts.drop (first + 1)).filter p := by
  obtain ⟨hlt, hp, hbefore⟩ := List.findIdx?_eq_some_iff_getElem.mp h
  have hsplit : ts.filter p = (ts.take first).filter p ++ (ts[first] :: ts.drop (first + 1)).filter p := by
    rw [← List.drop_eq_getElem_cons hlt, ← List.filter_append, List.take_append_drop]
  have hnone : (ts.take first).filter p = [] := by
    refine List.filter_eq_nil_iff.mpr fun t ht => ?_
    obtain ⟨i, hi, rfl⟩ := List.getElem_of_mem ht
    rw [List.length_take] at hi
    rw [List.getElem_take]
    exact hbefore i (by omega)
  refine ⟨ts[first], ?_⟩
  rw [hsplit, hnone, List.filter_cons_of_pos hp, List.nil_append]

theorem removeFrom_eq (tableId : UInt64) (level : UInt32) :
    removeTable tableId (some level) lm = applied lm (lm.removeTable tableId level) := by
  unfold removeTable LevelManager.removeTable
  rw [bind_apply, ensure_apply]
  by_cases hid : tableId = 0
  · rw [if_pos hid, if_neg (by simpa using hid)]
    rfl
  · rw [if_neg hid, if_pos (by simpa using hid)]
    dsimp only
    unfold removeFrom
    rw [bind_ok (get_apply lm), bind_apply, ensure_apply]
    by_cases hlevel : level.toNat < lm.levelCount
    · have hge : ¬ level.toNat ≥ lm.levelCount := by omega
      rw [if_pos (by simpa using hlevel), if_neg hge]
      dsimp only
      cases hfirst : (lm.tables level.toNat).findIdx? fun t => t.tableId == tableId with
      | none =>
        have hnil : (lm.tables level.toNat).filter (fun t => t.tableId == tableId) = [] := by
          refine List.filter_eq_nil_iff.mpr fun t ht => ?_
          rw [List.findIdx?_eq_none_iff.mp hfirst t ht]
          exact Bool.false_ne_true
        rw [hnil]
        rfl
      | some first =>
        dsimp only
        obtain ⟨t, ht⟩ := filter_of_findIdx? hfirst
        rw [ht]
        cases hsecond : ((lm.tables level.toNat).drop (first + 1)).findIdx? fun t => t.tableId == tableId with
        | some second =>
          obtain ⟨u, hu⟩ := filter_of_findIdx? hsecond
          rw [hu]
          rfl
        | none =>
          have hnil : ((lm.tables level.toNat).drop (first + 1)).filter (fun t => t.tableId == tableId) = [] := by
            refine List.filter_eq_nil_iff.mpr fun t ht => ?_
            rw [List.findIdx?_eq_none_iff.mp hsecond t ht]
            exact Bool.false_ne_true
          rw [hnil]
          unfold eraseAt
          dsimp only
          rw [modify_apply, List.eraseP_eq_eraseIdx, hfirst]
          rfl
    · have hge : level.toNat ≥ lm.levelCount := by omega
      rw [if_neg (by simpa using hlevel), if_pos hge]
      rfl

/-! ## Calls -/

/-- A call that changes the manager. -/
inductive LevelCall where
  | add (m : TableMeta)
  | remove (tableId : UInt64) (targetLevel : Option UInt32)

def LevelCall.run : LevelCall → Prog LevelManager Status Unit
  | .add m => addTable m
  | .remove tableId targetLevel => removeTable tableId targetLevel

/-- The manager after the calls, whatever they returned. -/
def runCalls (lm : LevelManager) (calls : List LevelCall) : LevelManager :=
  calls.foldl (fun lm c => (c.run lm).2) lm

/-- What a call can do: insert a table, erase one, or report an error and change nothing. -/
theorem removeAnywhere_cases (lm : LevelManager) (tableId : UInt64) :
    (∃ level position, removeAnywhere tableId lm = eraseAt level position lm) ∨
      ∃ e, removeAnywhere tableId lm = (.err e, lm) := by
  unfold removeAnywhere
  rw [bind_ok (get_apply lm)]
  cases hfound : locate tableId 0 lm.levels none with
  | error e => exact .inr ⟨e, bind_err (lift_error e lm)⟩
  | ok found =>
    rw [bind_ok (lift_ok found lm)]
    match found with
    | none => exact .inr ⟨_, rfl⟩
    | some (level, index) => exact .inl ⟨level, index, rfl⟩

theorem applied_cases (lm : LevelManager) (x : Except Status LevelManager) :
    (∃ lm', x = .ok lm' ∧ applied lm x = (.ok (), lm')) ∨ ∃ e, applied lm x = (.err e, lm) := by
  cases x with
  | ok lm' => exact .inl ⟨lm', rfl, rfl⟩
  | error e => exact .inr ⟨e, rfl⟩

theorem LevelCall.run_cases (hs : Structured lm) (c : LevelCall) :
    (∃ lm', c.run lm = (.ok (), lm') ∧ Structured lm') ∨ ∃ e, c.run lm = (.err e, lm) := by
  cases c with
  | add m =>
    rw [run, addTable_eq hs]
    rcases applied_cases lm (lm.addTable m) with ⟨lm', hx, hrun⟩ | herr
    · exact .inl ⟨lm', hrun, hs.addTable hx⟩
    · exact .inr herr
  | remove tableId targetLevel =>
    cases targetLevel with
    | some level =>
      rw [run, removeFrom_eq]
      rcases applied_cases lm (lm.removeTable tableId level) with ⟨lm', hx, hrun⟩ | herr
      · exact .inl ⟨lm', hrun, hs.removeTable hx⟩
      · exact .inr herr
    | none =>
      rw [run, removeTable, bind_apply, ensure_apply]
      by_cases hid : tableId = 0
      · rw [if_neg (by simpa using hid)]
        exact .inr ⟨_, rfl⟩
      · rw [if_pos (by simpa using hid)]
        dsimp only
        rcases removeAnywhere_cases lm tableId with ⟨level, position, heq⟩ | herr
        · rw [heq]
          exact .inl ⟨_, rfl, hs.sublist (List.eraseIdx_sublist ..)⟩
        · exact .inr herr

theorem structured_runCalls (n : Nat) (calls : List LevelCall) :
    Structured (runCalls (LevelManager.init n) calls) := by
  have hkeep : ∀ lm, Structured lm → Structured (runCalls lm calls) := by
    induction calls with
    | nil => exact fun lm hs => hs
    | cons c calls ih =>
      intro lm hs
      refine ih _ ?_
      show Structured (c.run lm).2
      rcases c.run_cases hs with ⟨lm', hrun, hs'⟩ | ⟨e, hrun⟩
      · rw [hrun]
        exact hs'
      · rw [hrun]
        exact hs
  exact hkeep _ (structured_init n)

/-! ## The searches are scans -/

theorem findOverlappingTables_eq (hs : Structured lm) (level : Nat) {smallest largest : ArenaEntry}
    (hle : smallest ≤ largest) :
    findOverlappingTables lm level smallest largest =
      (lm.tables level).filter fun t => smallest ≤ t.largestKey ∧ t.smallestKey ≤ largest := by
  have hrange : largest.lt smallest = false := lt_eq_false_iff.mpr hle
  unfold findOverlappingTables
  by_cases hlevel : lm.levelCount ≤ level
  · rw [if_pos (.inl hlevel)]
    refine (List.filter_eq_nil_iff.mpr fun t ht => ?_).symm
    have := LevelManager.mem_tables_level ht
    omega
  · rw [if_neg (by rw [hrange]; simpa using hlevel)]
    by_cases h0 : level = 0
    · subst h0
      rw [if_pos rfl]
      refine List.filter_congr fun t _ => ?_
      rw [Bool.eq_iff_iff, rangesOverlap_iff, decide_eq_true_eq]
    · rw [if_neg h0, drop_lowerBound (splits_largestKey hs h0 smallest),
        slice_eq_filter (splits_largestKey hs h0 smallest) (splits_start hs h0 largest)]
      refine List.filter_congr fun t _ => ?_
      rw [Bool.eq_iff_iff, Bool.and_eq_true, Bool.not_eq_true', Bool.not_eq_true', lt_eq_false_iff, lt_eq_false_iff,
        decide_eq_true_eq]

/-- At most one table below L0 has the key in its range: the first that does not end before it. -/
theorem filter_inside (hs : Structured lm) {level : Nat} (h0 : level ≠ 0) (key : ArenaEntry) :
    (lm.tables level).filter (keyIsInsideTable key) =
      match ((lm.tables level).dropWhile fun t => t.largestKey.lt key).head? with
      | none => []
      | some candidate => if keyIsInsideTable key candidate then [candidate] else [] := by
  have hfilter : (lm.tables level).filter (keyIsInsideTable key) =
      ((lm.tables level).dropWhile fun t => t.largestKey.lt key).filter fun t => !key.lt t.smallestKey := by
    rw [dropWhile_eq_filter (splits_largestKey hs h0 key), List.filter_filter]
    rfl
  have hpw : ((lm.tables level).dropWhile fun t => t.largestKey.lt key).Pairwise (LevelBefore level) :=
    (hs.order level).sublist (List.dropWhile_sublist _)
  rw [hfilter]
  cases hrest : (lm.tables level).dropWhile fun t => t.largestKey.lt key with
  | nil => rfl
  | cons candidate rest =>
    rw [hrest] at hpw
    have hkey := lt_eq_false_iff.mp (dropWhile_first hrest)
    have hnone : rest.filter (fun t => !key.lt t.smallestKey) = [] := by
      refine List.filter_eq_nil_iff.mpr fun t ht => ?_
      have hlt := (List.pairwise_cons.mp hpw).1 t ht
      unfold LevelBefore at hlt
      rw [if_neg h0] at hlt
      simpa [ArenaEntry.lt_iff] using hkey.trans_lt hlt
    rw [List.head?_cons]
    dsimp only
    by_cases hin : key.lt candidate.smallestKey = true
    · rw [List.filter_cons_of_neg (by simp [hin]), hnone, if_neg (by simp [keyIsInsideTable, hin])]
    · have hinside : keyIsInsideTable key candidate = true :=
        keyIsInsideTable_iff.mpr ⟨lt_eq_false_iff.mp (by simpa using hin), hkey⟩
      rw [List.filter_cons_of_pos (by simpa using hin), hnone, if_pos hinside]

theorem findCandidateTablesInLevel_eq (hs : Structured lm) {level : Nat} (hlevel : level < lm.levelCount)
    (key : ArenaEntry) :
    findCandidateTablesInLevel lm level key =
      .ok ((lm.tables level).filter fun t => t.smallestKey ≤ key ∧ key ≤ t.largestKey) := by
  have hscan : (lm.tables level).filter (fun t => t.smallestKey ≤ key ∧ key ≤ t.largestKey) =
      (lm.tables level).filter (keyIsInsideTable key) := by
    refine List.filter_congr fun t _ => ?_
    rw [Bool.eq_iff_iff, keyIsInsideTable_iff, decide_eq_true_eq]
  unfold findCandidateTablesInLevel
  rw [hscan, if_neg (by omega)]
  by_cases h0 : level = 0
  · rw [if_pos h0, h0]
  · rw [if_neg h0, getElem?_lowerBound (splits_largestKey hs h0 key), filter_inside hs h0 key]
    cases ((lm.tables level).dropWhile fun t => t.largestKey.lt key).head? with
    | none => rfl
    | some candidate => rfl

/-- `add_table` takes a table exactly when it has an id of its own, an existing level and a valid
range, and below L0 a range of its own. -/
theorem addTable_ok_iff (hs : Structured lm) (m : TableMeta) :
    (addTable m lm).1 = .ok () ↔
      m.tableId ≠ 0 ∧ (∀ level, ∀ t ∈ lm.tables level, t.tableId ≠ m.tableId) ∧
        m.level.toNat < lm.levelCount ∧
        m.smallestKey ≤ m.largestKey ∧
        (m.level ≠ 0 → ∀ t ∈ lm.tables m.level.toNat, ¬ (m.smallestKey ≤ t.largestKey ∧
          t.smallestKey ≤ m.largestKey)) := by
  rw [addTable_eq hs]
  constructor
  · intro hok
    cases hadd : lm.addTable m with
    | error e =>
      rw [hadd] at hok
      cases hok
    | ok lm' =>
      obtain ⟨hid, hlevel, hrange, hfresh, -⟩ := LevelManager.addTable_ok hadd
      obtain ⟨before, after, hsplit, -, hpw⟩ := addTable_order hs hadd
      refine ⟨hid, hfresh, hlevel, lt_eq_false_iff.mp hrange, ?_⟩
      intro h0 t ht ⟨hlow, hhigh⟩
      have hzero : m.level.toNat ≠ 0 := fun h => h0 (UInt32.toNat_inj.mp h)
      obtain ⟨-, hafter, hbefore⟩ := List.pairwise_append.mp hpw
      rw [hsplit] at ht
      -- the table is in front of the new one or behind it
      rcases List.mem_append.mp ht with ht | ht
      · have hlt := hbefore t ht m (by simp)
        unfold LevelBefore at hlt
        rw [if_neg hzero] at hlt
        exact absurd hlow (not_le.mpr hlt)
      · have hlt := (List.pairwise_cons.mp hafter).1 t ht
        unfold LevelBefore at hlt
        rw [if_neg hzero] at hlt
        exact absurd hhigh (not_le.mpr hlt)
  · rintro ⟨hid, hfresh, hlevel, hrange, hapart⟩
    have hok : ∃ lm', lm.addTable m = .ok lm' := by
      by_cases h0 : m.level = 0
      · exact addTable_succeeds_zero hid hfresh hlevel hrange h0
      · refine addTable_succeeds ⟨hid, hlevel, h0, hrange, hfresh, fun t ht => ?_⟩
        have hno := hapart h0 t ht
        rw [not_and_or, not_le, not_le] at hno
        exact hno
    obtain ⟨lm', h⟩ := hok
    rw [h]
    rfl

/-- On every manager that calls can reach, the searches find what a scan of the level finds,
`add_table` takes exactly the tables that the level has room for, and a call that fails changes
nothing. -/
theorem searches_are_scans (n : Nat) (calls : List LevelCall) (lm : LevelManager)
    (hlm : lm = runCalls (LevelManager.init n) calls) :
    (∀ level key, level < lm.levelCount →
      findCandidateTablesInLevel lm level key =
        .ok ((lm.tables level).filter fun t => t.smallestKey ≤ key ∧ key ≤ t.largestKey)) ∧
    (lm.tables 0).Pairwise (fun t u => u.tableId < t.tableId) ∧
    (∀ level a b, a ≤ b →
      findOverlappingTables lm level a b =
        (lm.tables level).filter fun t => a ≤ t.largestKey ∧ t.smallestKey ≤ b) ∧
    (∀ m, (addTable m lm).1 = .ok () ↔
      m.tableId ≠ 0 ∧ (∀ level, ∀ t ∈ lm.tables level, t.tableId ≠ m.tableId) ∧
        m.level.toNat < lm.levelCount ∧
        m.smallestKey ≤ m.largestKey ∧
        (m.level ≠ 0 → ∀ t ∈ lm.tables m.level.toNat,
          ¬ (m.smallestKey ≤ t.largestKey ∧ t.smallestKey ≤ m.largestKey))) ∧
    (∀ m, (addTable m lm).1 ≠ .ok () → (addTable m lm).2 = lm) ∧
    (∀ tableId level, (removeTable tableId level lm).1 ≠ .ok () → (removeTable tableId level lm).2 = lm) := by
  have hs : Structured lm := hlm ▸ structured_runCalls n calls
  have hfail : ∀ c : LevelCall, (c.run lm).1 ≠ .ok () → (c.run lm).2 = lm := by
    intro c hne
    rcases c.run_cases hs with ⟨lm', hrun, -⟩ | ⟨e, hrun⟩
    · rw [hrun] at hne
      exact absurd rfl hne
    · rw [hrun]
  refine ⟨?_, ?_, ?_, addTable_ok_iff hs, ?_, ?_⟩
  · exact fun level key hlevel => findCandidateTablesInLevel_eq hs hlevel key
  · refine (hs.order 0).imp fun {t u} htu => ?_
    unfold LevelBefore at htu
    rw [if_pos rfl] at htu
    exact uint64_lt_iff.mpr htu
  · exact fun level a b hle => findOverlappingTables_eq hs level hle
  · exact fun m => hfail (.add m)
  · exact fun tableId level => hfail (.remove tableId level)

/-- Two tables that have the key `c` as a bound: the second is refused, and the search for
`[c, d]` finds the first. -/
theorem searches_are_scans_touching :
    let lm := runCalls (LevelManager.init 2) [.add (.ofRange 1 1 97 99), .add (.ofRange 2 1 99 100)]
    findOverlappingTables lm 1 (ArenaEntry.ofByte 99) (ArenaEntry.ofByte 100) = [.ofRange 1 1 97 99] ∧
      (addTable (.ofRange 2 1 99 100) lm).2 = lm := by
  obtain ⟨-, -, hoverlap, hadd, hfail, -⟩ := searches_are_scans 2
      [.add (.ofRange 1 1 97 99), .add (.ofRange 2 1 99 100)] _ rfl
  refine ⟨?_, hfail _ fun hok => ?_⟩
  · rw [hoverlap 1 _ _ (by decide)]
    decide +kernel
  · obtain ⟨-, -, -, -, hapart⟩ := (hadd _).mp hok
    exact hapart (by decide) (.ofRange 1 1 97 99) (by decide +kernel) (by decide +kernel)

end LevelVectors

end Kvdb
