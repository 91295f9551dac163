import Kvdb.Manifest.Catalog

/-!
# Opening with another number of levels

The number of levels is an option of each open and is not in the manifest.  The
edits that replay with `n` levels replay with more levels to the same tables and
the same counters (`replay_widen`), so two replays that both succeed agree.
-/

namespace Kvdb

open Faulty

namespace LevelManager

/-- More levels, all empty. -/
def widen (lm : LevelManager) (k : Nat) : LevelManager := ⟨lm.levels ++ List.replicate k []⟩

variable {lm lm' : LevelManager} (k : Nat)

theorem widen_init (n : Nat) : (init n).widen k = init (n + k) := by
  simp [widen, init, List.replicate_append_replicate]

theorem levelCount_widen (lm : LevelManager) : (lm.widen k).levelCount = lm.levelCount + k := by
  simp [widen, levelCount]

@[simp] theorem tables_widen (lm : LevelManager) (level : Nat) : (lm.widen k).tables level = lm.tables level := by
  unfold tables widen
  simp only [List.getD_eq_getElem?_getD]
  by_cases h : level < lm.levels.length
  · rw [List.getElem?_append_left h]
  · rw [List.getElem?_append_right (by omega), List.getElem?_eq_none (l := lm.levels) (by omega),
      List.getElem?_replicate]
    split <;> rfl

theorem flatten_widen (lm : LevelManager) : (lm.widen k).levels.flatten = lm.levels.flatten := by
  simp [widen]

theorem setTables_widen {level : Nat} (h : level < lm.levelCount) (ts : List TableMeta) :
    (lm.widen k).setTables level ts = (lm.setTables level ts).widen k := by
  unfold setTables widen
  rw [List.set_append_left _ _ h]

theorem addSorted_widen {m : TableMeta} {before after : List TableMeta} (hlevel : m.level.toNat < lm.levelCount)
    (h : lm.addSorted m before after = .ok lm') : (lm.widen k).addSorted m before after = .ok (lm'.widen k) := by
  have hbefore : ∀ {l}, addSorted.addBefore lm m before after = .ok l →
      addSorted.addBefore (lm.widen k) m before after = .ok (l.widen k) := by
    intro l hl
    unfold addSorted.addBefore at hl ⊢
    rw [setTables_widen k hlevel]
    split at hl
    · split at hl
      · cases hl
      · next hno =>
        cases hl
        rw [if_neg hno]
    · cases hl
      rfl
  unfold addSorted at h ⊢
  split at h
  · split at h
    · cases h
    · next hno =>
      rw [if_neg hno]
      exact hbefore h
  · exact hbefore h

theorem addTable_widen {m : TableMeta} (h : lm.addTable m = .ok lm') :
    (lm.widen k).addTable m = .ok (lm'.widen k) := by
  obtain ⟨hid, hlevel, hrange, -, -⟩ := addTable_ok h
  unfold addTable at h ⊢
  rw [if_neg hid, if_neg (by omega), if_neg (by rw [hrange]; decide)] at h
  rw [if_neg hid, if_neg (by rw [levelCount_widen]; omega), if_neg (by rw [hrange]; decide)]
  split at h
  · cases h
  next hnone =>
  have hnone' : ((lm.widen k).levels.findIdx? fun ts => ts.any fun t => t.tableId == m.tableId) = none := by
    rw [List.findIdx?_eq_none_iff] at hnone ⊢
    intro ts hts
    rcases List.mem_append.mp hts with hts | hts
    · exact hnone ts hts
    · rw [List.eq_of_mem_replicate hts]
      rfl
  rw [hnone']
  simp only [tables_widen] at h ⊢
  split at h
  · next h0 =>
    cases h
    rw [if_pos h0, setTables_widen k (by rw [h0] at hlevel; exact hlevel)]
  · next h0 =>
    rw [if_neg h0]
    exact addSorted_widen k hlevel h

theorem removeTable_widen {tableId : UInt64} {level : UInt32} (h : lm.removeTable tableId level = .ok lm') :
    (lm.widen k).removeTable tableId level = .ok (lm'.widen k) := by
  obtain ⟨hid, hlevel, -, -, -⟩ := removeTable_ok h
  unfold removeTable at h ⊢
  rw [if_neg hid, if_neg (by omega)] at h
  rw [if_neg hid, if_neg (by rw [levelCount_widen]; omega)]
  simp only [tables_widen]
  split at h
  · cases h
  · cases h
    rw [setTables_widen k hlevel]
  · cases h

end LevelManager

theorem foldlM_widen {α : Type} {f : LevelManager → α → Except Status LevelManager} {k : Nat}
    (hf : ∀ lm a lm', f lm a = .ok lm' → f (lm.widen k) a = .ok (lm'.widen k)) {as : List α}
      {lm lm' : LevelManager}
    (h : as.foldlM f lm = .ok lm') : as.foldlM f (lm.widen k) = .ok (lm'.widen k) := by
  induction as generalizing lm with
  | nil =>
    cases h
    rfl
  | cons a as ih =>
    rw [List.foldlM_cons] at h ⊢
    obtain ⟨mid, h1, h2⟩ := except_bind_ok h
    rw [hf _ _ _ h1, ok_bind]
    exact ih h2

theorem stageApply_widen {lm lm' : LevelManager} {c c' : StagedCounters} {e : VersionEdit} (k : Nat)
    (h : stageApply lm c e = .ok (lm', c')) : stageApply (lm.widen k) c e = .ok (lm'.widen k, c') := by
  have hs := stageApply_ok_iff.mp h
  obtain ⟨mid, hd, ha⟩ := hs.tables
  refine stageApply_ok_iff.mpr { hs with tables := ⟨mid.widen k, ?_, ?_⟩, inv := ?_ }
  · exact foldlM_widen (fun _ _ _ h => LevelManager.removeTable_widen k h) hd
  · exact foldlM_widen (fun _ _ _ h => LevelManager.addTable_widen k h) ha
  · exact ⟨hs.inv.nextTableId, hs.inv.currentWalId, hs.inv.nextSequenceNumber, fun level => by
      rw [LevelManager.tables_widen]; exact hs.inv.levels level⟩

theorem replayFrom_widen {edits : List VersionEdit} {lm lm' : LevelManager} {c c' : StagedCounters} (k : Nat)
    (h : replayFrom (lm, c) edits = .ok (lm', c')) : replayFrom (lm.widen k, c) edits = .ok (lm'.widen k, c') := by
  induction edits generalizing lm c with
  | nil =>
    cases h
    rfl
  | cons e es ih =>
    rw [replayFrom, List.foldlM_cons] at h ⊢
    obtain ⟨⟨lm₁, c₁⟩, h1, h2⟩ := except_bind_ok h
    have hw : stageApply (lm.widen k) c e = _ := stageApply_widen k h1
    rw [hw, ok_bind]
    exact ih h2

/-- Edits that replay with `n` levels replay with more. -/
theorem replay_widen {n : Nat} {edits : List VersionEdit} {lm : LevelManager} {c : StagedCounters} (k : Nat)
    (h : replay n edits = .ok (lm, c)) : replay (n + k) edits = .ok (lm.widen k, c) := by
  unfold replay
  rw [← LevelManager.widen_init]
  exact replayFrom_widen k h

/-- Two level managers with the same tables. -/
structure SameTables (lm lm' : LevelManager) : Prop where
  tables : ∀ level, lm'.tables level = lm.tables level
  flatten : lm'.levels.flatten = lm.levels.flatten

theorem sameTables_widen (lm : LevelManager) (k : Nat) : SameTables lm (lm.widen k) :=
  ⟨lm.tables_widen k, lm.flatten_widen k⟩

theorem SameTables.symm {lm lm' : LevelManager} (h : SameTables lm lm') : SameTables lm' lm :=
  ⟨fun level => (h.tables level).symm, h.flatten.symm⟩

/-- Two replays of the same edits agree. -/
theorem replay_agree {n n' : Nat} {edits : List VersionEdit} {lm lm' : LevelManager} {c c' : StagedCounters}
    (h : replay n edits = .ok (lm, c)) (h' : replay n' edits = .ok (lm', c')) : c' = c ∧ SameTables lm lm' := by
  rcases Nat.le_total n n' with hle | hle
  · obtain ⟨k, rfl⟩ := Nat.exists_eq_add_of_le hle
    rw [replay_widen k h] at h'
    cases h'
    exact ⟨rfl, sameTables_widen lm k⟩
  · obtain ⟨k, rfl⟩ := Nat.exists_eq_add_of_le hle
    rw [replay_widen k h'] at h
    cases h
    exact ⟨rfl, (sameTables_widen lm' k).symm⟩

theorem Catalog.congr {lm lm' : LevelManager} {c : StagedCounters} (h : Catalog lm c) (hs : SameTables lm lm') :
    Catalog lm' c := by
  refine ⟨?_, ?_, ?_, ?_, ?_, ?_, ?_, ?_, h.nextTableId, h.currentWalId, h.nextSequenceNumber⟩
  · intro level
    rw [hs.tables]
    exact h.id_ne level
  · intro level
    rw [hs.tables]
    exact h.id_lt level
  · rw [hs.flatten]
    exact h.ids
  · intro level
    rw [hs.tables]
    exact h.level_eq level
  · intro level
    rw [hs.tables]
    exact h.range level
  · rw [hs.tables]
    exact h.newestFirst
  · intro level
    rw [hs.tables]
    exact h.sorted level
  · intro level
    rw [hs.tables]
    exact h.disjoint level

end Kvdb
